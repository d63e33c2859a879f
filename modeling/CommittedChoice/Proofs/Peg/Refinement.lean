import CommittedChoice.Proofs.Consumption
import CommittedChoice.Proofs.Peg

set_option autoImplicit false

/-! # Safe grammars refine parsing expressions

The parser of an expression has to find its way with flags and bookmarks: a choice goes on only if
the flag of a failure is off, a repetition ends only on such a failure and takes a success with the
flag off for a fault, and a negation turns a failure into a success wherever that failure stands. A
body that is safe fails at the place where it started with the flag off (`Run.Atomic`), and this is
what makes each of them do what the expression says.

`Run.Refines x e` says that every answer of `x` is one that the expression derives: a success is a
match that leaves the tokens behind the new place, a failure is a failure, and a fault is raised
only where the expression loops. Each way to build an expression has a lemma. An expression has at
most one result and none where it loops, so what is derived is also answered, and the main
statement `Peg.translate_answers_iff` has both directions. -/

namespace CommittedChoice

variable {τ ω α β : Type} {ruler : Ruler τ}

/-! ## Answers -/

/-- The answer `r` of a parse that started before the tokens `s` and ended before `s'` is what the
    expression makes of `s`. An overflow tells nothing, and a parse has to be finished. -/
def Peg.Answers (e : Peg τ) (s : List τ) : Except Stop (Outcome α) → List τ → Prop
  | .ok (.success _ _), s' => e.Derives s (some s')
  | .ok (.failure _), _ => e.Derives s none
  | .error (.fault error), _ =>
      (∃ combinator parser, error = .reentry combinator parser) ∧ e.Loops s
  | .error .overflow, _ => True
  | .error .unfinished, _ => False

namespace Peg.Answers

variable {a e : Peg τ} {s u s' s'' : List τ}

/-- A stop of one expression is a stop of another one that loops as well. -/
theorem stop {reason : Stop} (h : a.Answers s (.error reason : Except Stop (Outcome α)) s')
    (hloops : a.Loops s → e.Loops u) :
    e.Answers u (.error reason : Except Stop (Outcome β)) s'' := by
  cases reason with
  | fault error => exact ⟨h.1, hloops h.2⟩
  | overflow => trivial
  | unfinished => exact h

/-- An answer of one expression is an answer of another one that derives and loops as well. -/
theorem imp {r : Except Stop (Outcome α)} (h : a.Answers s r s')
    (hderives : ∀ result, a.Derives s result → e.Derives u result)
    (hloops : a.Loops s → e.Loops u) : e.Answers u r s' := by
  rcases r with reason | ⟨v, consumed⟩ | consumed
  · exact h.stop hloops
  · exact hderives _ h
  · exact hderives _ h

/-- What a repetition answers behind one round, it answers in front of it. -/
theorem star_more {r : Except Stop (Outcome α)} (hanswer : (Peg.star a).Answers s' r s'')
    (ha : a.Derives s (some s')) : (Peg.star a).Answers s r s'' := by
  refine hanswer.imp ?_ (.star_more ha)
  intro result hrest
  cases hrest with
  | star_done h => exact .star_more ha (.star_done h)
  | star_more h h' => exact .star_more ha (.star_more h h')

end Peg.Answers

namespace Run

/-- Wherever the computation starts, its answer is one of the expression. -/
def Refines (x : Run τ ω (Outcome α)) (e : Peg τ) : Prop :=
  ∀ ⦃w : World τ ω⦄ ⦃r : Except Stop (Outcome α)⦄ ⦃w' : World τ ω⦄, x.run w = (r, w') →
    e.Answers w.state.place.rest r w'.state.place.rest

/-- No failure of the computation has consumed. -/
def Atomic (x : Run τ ω (Outcome α)) : Prop :=
  ∀ ⦃w : World τ ω⦄ ⦃consumed : Bool⦄ ⦃w' : World τ ω⦄,
    x.run w = (.ok (.failure consumed), w') → consumed = false

/-! ## Computations without consuming failures -/

namespace Atomic

variable {x : Run τ ω (Outcome α)}

theorem success (v : α) (consumed : Bool) :
    (Pure.pure (.success v consumed) : Run τ ω (Outcome α)).Atomic := by
  intro w flag w' hrun
  cases hrun

theorem failure : (Pure.pure (.failure false) : Run τ ω (Outcome α)).Atomic := by
  intro w flag w' hrun
  cases hrun
  rfl

theorem bind {f : Outcome α → Run τ ω (Outcome β)} (hx : x.Atomic)
    (hsuccess : ∀ v consumed, (f (.success v consumed)).Atomic)
    (hfailure : (f (.failure false)).Atomic) : (x >>= f).Atomic := by
  intro w consumed w' hrun
  obtain ⟨outcome, w₁, hfirst, hrest⟩ := run_bind_eq_ok_iff.1 hrun
  cases outcome with
  | success v flag => exact hsuccess v flag hrest
  | failure flag =>
      obtain rfl : flag = false := hx hfirst
      exact hfailure hrest

theorem map (hx : x.Atomic) (f : α → β) :
    (x >>= fun outcome => Pure.pure (outcome.map f)).Atomic :=
  bind hx (fun _ _ => success _ _) failure

theorem component_last (hx : x.Atomic) {expected : List (Expected τ)} (f : α → β) :
    (Run.component expected false x fun v consumed => return .success (f v) consumed).Atomic := by
  refine bind hx (fun _ _ => success _ _) ?_
  intro w flag w' hrun
  cases hrun
  rfl

/-- The failures of a safe computation have gone back to the start. -/
theorem safe (x : Run τ ω (Outcome α)) : (Run.safe x).Atomic := by
  intro w consumed w' hrun
  simp only [Run.safe, speculate] at hrun
  split at hrun
  · next outcome w₁ _ =>
      cases outcome with
      | success v flag => cases hrun
      | failure flag =>
          cases hrun
          rfl
  · cases hrun

theorem rounds (hx : x.Atomic) {loop : Loop} {name : String} {combine : β → α → β} (fuel : Nat)
    (acc : β) (consumed : Bool) (count : Nat) :
    (Run.rounds loop name combine x fuel acc consumed count).Atomic := by
  induction fuel generalizing acc consumed count with
  | zero =>
      intro w flag w' hrun
      cases hrun
  | succ fuel ih =>
      refine bind hx (fun v flag => ?_) ?_
      · cases flag with
        | false =>
            intro w flag w' hrun
            cases hrun
        | true => exact ih (combine acc v) true (count + 1)
      · intro w flag w' hrun
        cases hrun

theorem chain (hx : x.Atomic) {name : String} {seed : β} {combine : β → α → β} :
    (Run.chain name seed combine x).Atomic := by
  refine bind hx (fun v flag => ?_) failure
  intro w consumed w' hrun
  exact rounds hx (w.state.place.rest.length + 1) (combine seed v) flag 1 hrun

end Atomic

/-! ## Computations that refine an expression -/

namespace Refines

variable {x : Run τ ω (Outcome α)} {a b e : Peg τ}

theorem success (v : α) (consumed : Bool) :
    (Pure.pure (.success v consumed) : Run τ ω (Outcome α)).Refines .empty := by
  intro w r w' hrun
  cases hrun
  exact .empty

theorem imp (hx : x.Refines a) (hderives : ∀ s result, a.Derives s result → e.Derives s result)
    (hloops : ∀ s, a.Loops s → e.Loops s) : x.Refines e :=
  fun _ _ _ hrun => (hx hrun).imp (hderives _) (hloops _)

/-- One computation after another. The stops of the first one are those of the whole, so what is
    left to show is what comes after each of its outcomes. -/
theorem answers_bind {f : Outcome α → Run τ ω (Outcome β)} {w w' : World τ ω}
    {r : Except Stop (Outcome β)} (hx : x.Refines a) (hrun : (x >>= f).run w = (r, w'))
    (hloops : a.Loops w.state.place.rest → e.Loops w.state.place.rest)
    (hsuccess : ∀ v consumed w₁, x.run w = (.ok (.success v consumed), w₁) →
      a.Derives w.state.place.rest (some w₁.state.place.rest) →
      (f (.success v consumed)).run w₁ = (r, w') →
        e.Answers w.state.place.rest r w'.state.place.rest)
    (hfailure : ∀ consumed w₁, x.run w = (.ok (.failure consumed), w₁) →
      a.Derives w.state.place.rest none → (f (.failure consumed)).run w₁ = (r, w') →
        e.Answers w.state.place.rest r w'.state.place.rest) :
    e.Answers w.state.place.rest r w'.state.place.rest := by
  rcases hfirst : x.run w with ⟨reason | outcome, w₁⟩
  · rw [run_bind_of_error hfirst] at hrun
    obtain ⟨rfl, rfl⟩ := Prod.mk.inj hrun
    exact (hx hfirst).stop hloops
  · rw [run_bind_of_ok hfirst] at hrun
    have hanswer := hx hfirst
    cases outcome with
    | success v consumed => exact hsuccess v consumed w₁ hfirst hanswer hrun
    | failure consumed => exact hfailure consumed w₁ hfirst hanswer hrun

/-- What follows leaves the kind of an outcome and the place alone. -/
theorem bind_same {f : Outcome α → Run τ ω (Outcome β)} (hx : x.Refines e)
    (hsuccess : ∀ v consumed w, ∃ b flag w', (f (.success v consumed)).run w =
      (.ok (.success b flag), w') ∧ w'.state.place = w.state.place)
    (hfailure : ∀ consumed w, ∃ flag w',
      (f (.failure consumed)).run w = (.ok (.failure flag), w')) :
    (x >>= f).Refines e := by
  intro w r w' hrun
  refine hx.answers_bind hrun (fun h => h) ?_ ?_
  · intro v consumed w₁ _ hderives hrest
    obtain ⟨b, flag, w₂, hend, hplace⟩ := hsuccess v consumed w₁
    cases hend.symm.trans hrest
    rw [hplace]
    exact hderives
  · intro consumed w₁ _ hderives hrest
    obtain ⟨flag, w₂, hend⟩ := hfailure consumed w₁
    cases hend.symm.trans hrest
    exact hderives

theorem map (hx : x.Refines e) (f : α → β) :
    (x >>= fun outcome => Pure.pure (outcome.map f)).Refines e :=
  bind_same hx (fun v _ w => ⟨f v, _, w, rfl, rfl⟩) fun _ w => ⟨_, w, rfl⟩

/-! ## Tokens and sequences -/

theorem token [DecidableEq τ] (t : τ) (expected : List (Expected τ)) :
    (Run.satisfy ruler (fun u => u = t) expected : Run τ ω (Outcome τ)).Refines (.token t) := by
  intro w r w' hrun
  rw [Run.satisfy, run_bind_of_ok (run_getState w)] at hrun
  rcases hrest : w.state.place.rest with _ | ⟨u, us⟩
  · have hpeek : w.state.peek = none := by simp [State.peek, Place.peek, hrest]
    rw [hpeek] at hrun
    cases hrun
    exact .token_end
  · have hpeek : w.state.peek = some u := by simp [State.peek, Place.peek, hrest]
    rw [hpeek] at hrun
    by_cases hu : u = t
    · subst hu
      simp only [decide_true, if_true] at hrun
      -- a token that fits is read, unless the position cannot follow
      rcases hnext : w.state.place.next? ruler with _ | q
      · rw [run_bind_of_error (run_advance_of_none hnext)] at hrun
        cases hrun
        trivial
      · rw [run_bind_of_ok (run_advance_of_some hnext)] at hrun
        cases hrun
        have hq := (Place.passes_of_next? hrest hnext).rest
        rw [hrest, List.singleton_append, List.cons.injEq] at hq
        rw [hq.2]
        exact .token
    · simp only [hu, decide_false, Bool.false_eq_true, if_false] at hrun
      cases hrun
      exact .token_other hu

/-- A component and what follows it. -/
theorem component {expected : List (Expected τ)} {earlier : Bool}
    {next : α → Bool → Run τ ω (Outcome β)} (hx : x.Refines a)
    (hnext : ∀ v consumed, (next v consumed).Refines b) :
    (Run.component expected earlier x next).Refines (.seq a b) := by
  intro w r w' hrun
  refine hx.answers_bind hrun .seq_first ?_ ?_
  · intro v consumed w₁ _ hderives hrest
    have hanswer := hnext v (earlier || consumed) hrest
    exact hanswer.imp (fun _ h => .seq hderives h) fun h => .seq_second hderives h
  · intro consumed w₁ _ hderives hrest
    cases hrest
    exact .seq_fails hderives

/-- The last component changes the value only. -/
theorem component_last {expected : List (Expected τ)} {earlier : Bool} (hx : x.Refines e)
    (f : α → β) :
    (Run.component expected earlier x fun v consumed => return .success (f v) consumed).Refines e :=
  bind_same hx (fun v _ w => ⟨f v, _, w, rfl, rfl⟩) fun _ _ => ⟨_, _, rfl⟩

/-! ## Choice and conditions -/

/-- An alternative that has failed has not consumed, so that those behind it start at the same
    place. -/
theorem alternatives_cons {exhausted : Option (ParseError τ) → Run τ ω (Outcome α)}
    {xs : List (Run τ ω (Outcome α))} (hx : x.Refines a) (hatomic : x.Atomic)
    (hmoves : x.Moves ruler false) (hxs : ∀ best, (Run.alternatives exhausted best xs).Refines b)
    (best : Option (ParseError τ)) :
    (Run.alternatives exhausted best (x :: xs)).Refines (.choice a b) := by
  intro w r w' hrun
  refine hx.answers_bind hrun .choice_first ?_ ?_
  · intro v consumed w₁ _ hderives hrest
    cases hrest
    exact .choice_first hderives
  · intro consumed w₁ hfirst hderives hrest
    obtain rfl : consumed = false := hatomic hfirst
    have hanswer := hxs (some (further best w₁.state.error)) hrest
    rw [hmoves.place_eq hfirst rfl] at hanswer
    exact hanswer.imp (fun _ h => .choice_second hderives h) fun h => .choice_second hderives h

/-- If the last alternative fails, then so does the choice, whether that failure is final or not. -/
theorem alternatives_singleton {exhausted : Option (ParseError τ) → Run τ ω (Outcome α)}
    (hx : x.Refines e)
    (hexhausted : ∀ best w, ∃ consumed w', (exhausted best).run w = (.ok (.failure consumed), w'))
    (best : Option (ParseError τ)) : (Run.alternatives exhausted best [x]).Refines e := by
  intro w r w' hrun
  refine hx.answers_bind hrun (fun h => h) ?_ ?_
  · intro v consumed w₁ _ hderives hrest
    cases hrest
    exact hderives
  · intro consumed w₁ _ hderives hrest
    cases consumed with
    | true =>
        cases hrest
        exact hderives
    | false =>
        obtain ⟨flag, w₂, hend⟩ := hexhausted (some (further best w₁.state.error)) w₁
        cases hend.symm.trans hrest
        exact hderives

theorem choice {expected : List (Expected τ)} {z : Run τ ω (Outcome α)} (hx : x.Refines a)
    (hatomic : x.Atomic) (hmoves : x.Moves ruler false) (hz : z.Refines b) :
    (Run.choice expected [x, z]).Refines (.choice a b) := by
  refine alternatives_cons hx hatomic hmoves (alternatives_singleton hz ?_) none
  intro best w
  cases best with
  | none => exact ⟨false, _, rfl⟩
  | some error => exact ⟨false, _, rfl⟩

/-- A negation succeeds where its body has failed, and that is where the body started. -/
theorem negate {expected : List (Expected τ)} {message : String} (hx : x.Refines a)
    (hatomic : x.Atomic) (hmoves : x.Moves ruler false) :
    (Run.negate expected message x).Refines (.absent a) := by
  intro w r w' hrun
  rw [Run.negate, run_bind_of_ok (run_getState w)] at hrun
  refine hx.answers_bind hrun .absent ?_ ?_
  · intro v consumed w₁ _ hderives hrest
    cases hrest
    exact .absent_fails hderives
  · intro consumed w₁ hfirst hderives hrest
    obtain rfl : consumed = false := hatomic hfirst
    cases hrest
    rw [hmoves.place_eq hfirst rfl]
    exact .absent hderives

/-! ## Speculation -/

/-- The body of a speculation starts before the tokens that are left, with a bookmark there, and
    that bookmark is on top of the stack when `finish` starts. -/
theorem speculate {finish : Outcome α → Run τ ω (Outcome β)} (hx : x.Refines a)
    (hbookmarks : x.KeepsBookmarks) (hloops : ∀ s, a.Loops s → e.Loops s)
    (hfinish : ∀ ⦃q bookmarks outcome w r w'⦄, w.state.bookmarks = q :: bookmarks →
      a.Answers q.rest (.ok outcome : Except Stop (Outcome α)) w.state.place.rest →
      (finish outcome).run w = (r, w') → e.Answers q.rest r w'.state.place.rest) :
    (Run.speculate x finish).Refines e := by
  intro w r w' hrun
  have hkeep := hbookmarks { w with state := w.state.pushBookmark }
  simp only [Run.speculate] at hrun
  rcases hbody : x.run { w with state := w.state.pushBookmark } with ⟨reason | outcome, w₁⟩
  · rw [hbody] at hrun
    cases hrun
    exact (hx hbody).stop (hloops _)
  · rw [hbody] at hrun hkeep
    have hanswer := hx hbody
    exact hfinish hkeep hanswer hrun

theorem lookahead (hx : x.Refines a) (hbookmarks : x.KeepsBookmarks) :
    (Run.lookahead x).Refines (.ahead a) := by
  refine speculate hx hbookmarks (fun _ h => .ahead h) ?_
  intro q bookmarks outcome w r w' hstack hanswer hrun
  cases outcome with
  | success v consumed =>
      cases hrun
      rw [State.rewind_of_cons hstack]
      exact .ahead hanswer
  | failure consumed =>
      cases hrun
      exact .ahead_fails hanswer

theorem safe (hx : x.Refines e) (hbookmarks : x.KeepsBookmarks) : (Run.safe x).Refines e := by
  refine speculate hx hbookmarks (fun _ h => h) ?_
  intro q bookmarks outcome w r w' _ hanswer hrun
  cases outcome with
  | success v consumed =>
      cases hrun
      exact hanswer
  | failure consumed =>
      cases hrun
      exact hanswer

/-! ## Repetition -/

/-- The rounds of a loop, as long as there is fuel for more rounds than tokens are left: a round
    that goes on leaves fewer tokens, and one that succeeds without consuming is where the
    expression loops. -/
theorem rounds {loop : Loop} {name : String} {combine : β → α → β} (hx : x.Refines a)
    (hatomic : x.Atomic) (hmoves : x.Moves ruler false) {fuel : Nat} {acc : β} {consumed : Bool}
    {count : Nat} {w w' : World τ ω} {r : Except Stop (Outcome β)}
    (hfuel : w.state.place.rest.length < fuel)
    (hrun : (Run.rounds loop name combine x fuel acc consumed count).run w = (r, w')) :
    (Peg.star a).Answers w.state.place.rest r w'.state.place.rest := by
  induction fuel generalizing acc consumed count w with
  | zero => exact absurd hfuel (Nat.not_lt_zero _)
  | succ fuel ih =>
      refine hx.answers_bind hrun .star_body ?_ ?_
      · intro v flag w₁ hround hderives hrest
        cases flag with
        | false =>
            rw [hmoves.place_eq hround rfl] at hderives
            cases hrest
            exact ⟨⟨_, _, rfl⟩, .star hderives⟩
        | true =>
            have hlt := hmoves.length_rest_lt hround rfl
            have hanswer := ih (by omega) hrest
            exact hanswer.star_more hderives
      · intro flag w₁ hround hderives hrest
        obtain rfl : flag = false := hatomic hround
        cases hrest
        rw [hmoves.place_eq hround rfl]
        exact .star_done hderives

/-- A chain is a first round and the rounds after it. -/
theorem chain {name : String} {seed : β} {combine : β → α → β} (hx : x.Refines a)
    (hatomic : x.Atomic) (hmoves : x.Moves ruler false) :
    (Run.chain name seed combine x).Refines (.seq a (.star a)) := by
  intro w r w' hrun
  refine hx.answers_bind hrun .seq_first ?_ ?_
  · intro v consumed w₁ _ hderives hrest
    have hanswer := rounds hx hatomic hmoves (Nat.lt_succ_self _) hrest
    exact hanswer.imp (fun _ h => .seq hderives h) fun h => .seq_second hderives h
  · intro consumed w₁ _ hderives hrest
    cases hrest
    exact .seq_fails hderives

end Refines

end Run

/-! ## Parsers of expressions -/

section Parsers

variable {ρ : Type → Type} {rules : Parser.Rules τ ρ ω} {depth copy : Nat} {a b : Peg τ}

namespace Parser

/-- Of two alternatives, only the first one has to be atomic. -/
theorem refines_orElse {p q : Parser τ ρ ω α}
    (hp : (p.eval ruler (calls ruler rules depth) copy).Refines a)
    (hatomic : (p.eval ruler (calls ruler rules depth) copy).Atomic)
    (hq : (q.eval ruler (calls ruler rules depth) copy).Refines b) :
    ((orElse p q).eval ruler (calls ruler rules depth) copy).Refines (.choice a b) := by
  rw [eval_orElse]
  exact .choice hp hatomic (moves_eval_calls ruler rules depth p copy) hq

theorem refines_many {p : Parser τ ρ ω α} (name : String)
    (hp : (p.eval ruler (calls ruler rules depth) copy).Refines a)
    (hatomic : (p.eval ruler (calls ruler rules depth) copy).Atomic) :
    ((many name p).eval ruler (calls ruler rules depth) copy).Refines (.star a) := by
  have hmoves := moves_eval_calls ruler rules depth p copy
  have hchain : ((many1 name p).eval ruler (calls ruler rules depth) copy).Refines
      (.seq a (.star a)) := by
    rw [many1, eval_adapt, eval_chain]
    exact .map (.chain hp hatomic hmoves) _
  have hmany : ((many1 name p).eval ruler (calls ruler rules depth) copy).Atomic := by
    rw [many1, eval_adapt, eval_chain]
    exact .map (.chain hatomic) _
  have hempty : ((empty : Parser τ ρ ω (List α)).eval ruler (calls ruler rules depth)
      copy).Refines .empty := by
    rw [empty, eval_map, unit, eval_value]
    exact .component_last (.success () false) _
  exact (refines_orElse hchain hmany hempty).imp (fun _ _ => .star_of_choice) fun _ =>
    .star_of_choice

theorem refines_optional {p : Parser τ ρ ω α}
    (hp : (p.eval ruler (calls ruler rules depth) copy).Refines a)
    (hatomic : (p.eval ruler (calls ruler rules depth) copy).Atomic) :
    ((optional p).eval ruler (calls ruler rules depth) copy).Refines (.opt a) := by
  have hsome : ((map some p).eval ruler (calls ruler rules depth) copy).Refines a := by
    rw [eval_map]
    exact .component_last hp _
  have hatomic' : ((map some p).eval ruler (calls ruler rules depth) copy).Atomic := by
    rw [eval_map]
    exact .component_last hatomic _
  have hnone : ((map (fun _ => none) unit : Parser τ ρ ω (Option α)).eval ruler
      (calls ruler rules depth) copy).Refines .empty := by
    rw [eval_map, unit, eval_value]
    exact .component_last (.success () false) _
  exact (refines_orElse hsome hatomic' hnone).imp (fun _ _ => .opt_of_choice) fun _ =>
    .opt_of_choice

theorem refines_safe {p : Parser τ ρ ω α}
    (hp : (p.eval ruler (calls ruler rules depth) copy).Refines a) :
    ((safe p).eval ruler (calls ruler rules depth) copy).Refines a := by
  rw [eval_safe]
  exact .safe hp (keepsBookmarks_eval_calls ruler rules depth p copy)

theorem atomic_safe (p : Parser τ ρ ω α) :
    ((safe p).eval ruler (calls ruler rules depth) copy).Atomic := by
  rw [eval_safe]
  exact .safe _

end Parser

namespace Peg

variable [DecidableEq τ] [TokenText τ]

theorem refines_translate (ruler : Ruler τ) (rules : Parser.Rules τ ρ ω) (depth copy : Nat)
    (values : Values τ α) (name : Peg τ → String) (e : Peg τ) :
    ((e.translate values name).eval ruler (Parser.calls ruler rules depth) copy).Refines e := by
  induction e with
  | empty =>
      rw [translate, Parser.eval_adapt, Parser.unit, Parser.eval_value]
      exact .map (.success () false) _
  | token t =>
      rw [translate, Parser.eval_adapt, Parser.token, Parser.eval_satisfy]
      exact .map (.token t _) _
  | seq a b iha ihb =>
      rw [translate, Parser.eval_map2]
      exact .component iha fun v earlier => .component_last ihb _
  | choice a b iha ihb =>
      rw [translate]
      exact Parser.refines_orElse (Parser.refines_safe iha) (Parser.atomic_safe _)
        (Parser.refines_safe ihb)
  | star a iha =>
      rw [translate, Parser.eval_adapt]
      exact .map (Parser.refines_many _ (Parser.refines_safe iha) (Parser.atomic_safe _)) _
  | opt a iha =>
      rw [translate, Parser.eval_adapt]
      exact .map (Parser.refines_optional (Parser.refines_safe iha) (Parser.atomic_safe _)) _
  | ahead a iha =>
      rw [translate, Parser.eval_lookahead]
      exact .lookahead iha (Parser.keepsBookmarks_eval_calls ruler rules depth _ copy)
  | absent a iha =>
      rw [translate, Parser.eval_adapt, Parser.notThere, Parser.eval_negate]
      have hmoves := Parser.moves_eval_calls ruler rules depth
        (.safe (a.translate values name)) copy
      exact .map (.negate (Parser.refines_safe iha) (Parser.atomic_safe _) hmoves) _

/-- **Safe grammars refine parsing expressions.** Run from any place, the parser of an expression
    stops because the ruler has no position behind some of the tokens left, or its answer is that
    of the expression: it succeeds at a cursor exactly if the expression matches up to that cursor,
    it fails exactly if the expression fails, and it raises the fault of a loop exactly if the
    expression has no result, which is where the evaluation comes to a repetition whose body
    matches nothing. -/
theorem translate_answers_iff (ruler : Ruler τ) (rules : Parser.Rules τ ρ ω) (depth copy : Nat)
    (values : Values τ α) (name : Peg τ → String) (e : Peg τ) (w : World τ ω) :
    ∃ r w', ((e.translate values name).eval ruler (Parser.calls ruler rules depth) copy).run w =
        (r, w') ∧
      ((r = .error .overflow ∧
          ∃ ts, ts <+: w.state.place.rest ∧ ruler.positionAfter w.state.position ts = none) ∨
        (∀ cursor, (∃ v consumed, r = .ok (.success v consumed) ∧ w'.state.cursor = cursor) ↔
          ∃ ts rest, w.state.place.rest = ts ++ rest ∧ cursor = w.state.cursor + ruler.extent ts ∧
            e.Derives w.state.place.rest (some rest)) ∧
        ((∃ consumed, r = .ok (.failure consumed)) ↔ e.Derives w.state.place.rest none) ∧
        ((∃ combinator parser, r = .error (.fault (.reentry combinator parser))) ↔
          ∀ result, ¬ e.Derives w.state.place.rest result) ∧
        ((∀ result, ¬ e.Derives w.state.place.rest result) ↔ e.Loops w.state.place.rest)) := by
  rcases hrun : ((e.translate values name).eval ruler (Parser.calls ruler rules depth) copy).run w
    with ⟨r, w'⟩
  refine ⟨r, w', rfl, ?_⟩
  obtain ⟨ts, hpass, -, hstuck⟩ := Parser.moves_eval_calls ruler rules depth _ copy hrun
  have hanswer := refines_translate ruler rules depth copy values name e hrun
  rcases r with (error | _ | _) | ⟨v, consumed⟩ | consumed
  · obtain ⟨⟨combinator, parser, rfl⟩, hloops⟩ := hanswer
    have hnone : ∀ result, ¬ e.Derives w.state.place.rest result := fun _ => hloops.not_derives
    exact .inr ⟨by simp [hnone], by simp [hnone], by simp [hnone], by simp [hnone, hloops]⟩
  · exact .inl ⟨rfl, hpass.exists_positionAfter_eq_none (hstuck rfl)⟩
  · exact hanswer.elim
  · have hmatch : e.Derives w.state.place.rest (some w'.state.place.rest) := hanswer
    have hloops : ¬ e.Loops w.state.place.rest := fun h => h.not_derives hmatch
    refine .inr ⟨fun cursor => ⟨?_, ?_⟩, by simp [hmatch.iff_eq], by simp [hmatch.iff_eq],
      by simp [hmatch.iff_eq, hloops]⟩
    · rintro ⟨_, _, _, rfl⟩
      exact ⟨ts, w'.state.place.rest, hpass.rest, hpass.cursor, hmatch⟩
    · -- the match that is derived is the one that the parser has found
      rintro ⟨us, rest, hrest, rfl, hderives⟩
      obtain rfl : rest = w'.state.place.rest := Option.some.inj (hderives.unique hmatch)
      obtain rfl : us = ts := List.append_cancel_right (hrest.symm.trans hpass.rest)
      exact ⟨v, consumed, rfl, hpass.cursor⟩
  · have hfail : e.Derives w.state.place.rest none := hanswer
    have hloops : ¬ e.Loops w.state.place.rest := fun h => h.not_derives hfail
    exact .inr ⟨by simp [hfail.iff_eq], by simp [hfail.iff_eq], by simp [hfail.iff_eq],
      by simp [hfail.iff_eq, hloops]⟩

/-- A token at the last column is matched by its expression, but its parser cannot read it. -/
theorem token_unread_at_last_column :
    let e : Peg Char := .token 'a'
    let values : Values Char Unit := ⟨(), fun _ => (), fun _ _ => (), fun _ => (), fun _ => ()⟩
    let p : Parser Char (fun _ => Empty) Unit Unit := e.translate values fun _ => ""
    let ruler := Ruler.ofString (TextLayout.next {})
    let w : World Char Unit := ⟨State.initial ⟨1, Position.maxCoordinate⟩ ['a'], [], .empty⟩
    e.Derives w.state.place.rest (some []) ∧ ∀ depth, ¬ ∃ v consumed w',
      (p.eval ruler (Parser.calls ruler (fun _ => Empty.elim) depth) 0).run w =
        (.ok (.success v consumed), w') := by
  intro e values p ruler w
  refine ⟨.token, fun depth => ?_⟩
  rintro ⟨v, consumed, w', hrun⟩
  have hoverflow : (p.eval ruler (Parser.calls ruler (fun _ => Empty.elim) depth) 0).run w =
      (.error .overflow, _) := rfl
  rw [hoverflow] at hrun
  cases hrun

end Peg

end Parsers

end CommittedChoice
