import CommittedChoice.Proofs.RepetitionFolds
import CommittedChoice.Proofs.Sequencing

set_option autoImplicit false

/-! # Maximal munch

A repeated class of tokens reads as many tokens of the class as there are: the longest run of them
at the start of the rest, which is `List.takeWhile`. `Run.Takes ruler x w ts outcome` says that a
computation reads a given run: it passes the run `ts` and ends behind it with `outcome`, and where
that is a failure, it is reported at the place where the run ends. There is one exception. A
position has bounded coordinates, and where there is no position behind the run the computation
stops.

The row of attempts of a chain is the longest run (`Run.exists_repeats_takeWhile`, by induction on
the tokens left), and from it the answer of the chain follows (`Run.takes_chain`). Everything else
is put around a chain: a value for nothing (`Parser.takes_orElse`), a label
(`Run.Takes.withExpected`), and a letter before it (`Run.Takes.pair`). The main statement is
`Parser.classes_take_longest_run`. -/

namespace CommittedChoice

variable {τ ω α β γ : Type} {ρ : Type → Type} {ruler : Ruler τ}

/-- The last error is about the place at which the state is: it names the token there, if there is
    one, and the position. -/
def State.FailedHere (s : State τ) : Prop := s.error.cause = ⟨s.peek, s.position, s.isAtEnd⟩

/-! ## Where a run ends -/

/-- The tokens do not go on with an accepted one. -/
def Halts (accepts : τ → Bool) (ts : List τ) : Prop := ∀ t ∈ ts.head?, accepts t = false

theorem Halts.nil {accepts : τ → Bool} : Halts accepts ([] : List τ) := nofun

theorem Halts.cons {accepts : τ → Bool} {t : τ} (ht : accepts t = false) (ts : List τ) :
    Halts accepts (t :: ts) := by
  rintro t ⟨⟩
  exact ht

theorem exists_cons_of_not_halts {accepts : τ → Bool} {ts : List τ} (h : ¬ Halts accepts ts) :
    ∃ t us, ts = t :: us ∧ accepts t = true := by
  cases ts with
  | nil => exact absurd .nil h
  | cons t us => exact ⟨t, us, rfl, by simpa [Halts] using h⟩

theorem Halts.dropWhile (accepts : τ → Bool) (ts : List τ) :
    Halts accepts (ts.dropWhile accepts) := by
  intro t ht
  have hnot := List.head?_dropWhile_not accepts ts
  rw [Option.mem_def.1 ht] at hnot
  exact hnot

theorem takeWhile_append_of_halts {accepts : τ → Bool} {ts us : List τ}
    (hts : ∀ t ∈ ts, accepts t = true) (hus : Halts accepts us) :
    (ts ++ us).takeWhile accepts = ts := by
  rw [List.takeWhile_append_of_pos hts]
  cases us with
  | nil => simp
  | cons u us => simp [hus u rfl]

/-- A run of accepted tokens that goes as far as it can is the only one. -/
theorem append_inj_of_halts {accepts : τ → Bool} {ts ts' us us' : List τ}
    (hts : ∀ t ∈ ts, accepts t = true) (hts' : ∀ t ∈ ts', accepts t = true)
    (hus : Halts accepts us) (hus' : Halts accepts us') (h : ts ++ us = ts' ++ us') :
    ts = ts' ∧ us = us' := by
  have heq : ts = ts' := by
    rw [← takeWhile_append_of_halts hts hus, h, takeWhile_append_of_halts hts' hus']
  subst heq
  exact ⟨rfl, List.append_cancel_left h⟩

/-! ## Places behind a run -/

/-- Without a position behind a part there is none behind the whole. -/
theorem Ruler.positionAfter_append_eq_none {p : Position} {ts : List τ}
    (h : ruler.positionAfter p ts = none) (us : List τ) :
    ruler.positionAfter p (ts ++ us) = none := by
  rw [positionAfter_append, h]
  rfl

theorem Place.Passes.positionAfter_append {q q' : Place τ} {ts : List τ}
    (h : Passes ruler q ts q') (us : List τ) :
    ruler.positionAfter q.position (ts ++ us) = ruler.positionAfter q'.position us := by
  rw [Ruler.positionAfter_append, h.position]
  rfl

theorem Place.Passes.rest_eq_of_append {q q' : Place τ} {ts us : List τ}
    (h : Passes ruler q ts q') (hrest : q.rest = ts ++ us) : q'.rest = us :=
  List.append_cancel_left (h.rest.symm.trans hrest)

namespace State

theorem failedHere_failAtEnd {s : State τ} (hrest : s.place.rest = [])
    (expected : List (Expected τ)) : (s.failAtEnd expected).FailedHere := by
  simp [FailedHere, failAtEnd, fail, peek, Place.peek, position, isAtEnd, hrest]

theorem failedHere_failAtToken {s : State τ} {t : τ} {us : List τ} (hrest : s.place.rest = t :: us)
    (expected : List (Expected τ)) : (s.failAtToken expected t).FailedHere := by
  simp [FailedHere, failAtToken, fail, peek, Place.peek, position, isAtEnd, hrest]

end State

namespace Run

/-! ## Reading a run of tokens -/

/-- The computation reads the run `ts`, no more and no less, and answers with the outcome. -/
inductive Takes (ruler : Ruler τ) (x : Run τ ω (Outcome α)) (w : World τ ω) (ts : List τ)
    (outcome : Outcome α) : Prop where
  /-- It ends behind the run, and a failure is reported there. -/
  | ended {w' : World τ ω} (hrun : x.run w = (.ok outcome, w'))
      (hpass : w.state.place.Passes ruler ts w'.state.place)
      (herror : outcome.isSuccess = true ∨ w'.state.FailedHere)
  /-- There is no position behind the run. -/
  | overflow {w' : World τ ω} (hrun : x.run w = (.error .overflow, w'))
      (hnone : ruler.positionAfter w.state.position ts = none)

variable {x : Run τ ω (Outcome α)} {y : Run τ ω (Outcome β)} {w : World τ ω} {ts us : List τ}
  {outcome : Outcome α}

namespace Takes

/-- Nothing is read without a position behind it. -/
theorem exists_of_nil (h : x.Takes ruler w [] outcome) :
    ∃ w', x.run w = (.ok outcome, w') ∧ w'.state.place = w.state.place ∧
      (outcome.isSuccess = true ∨ w'.state.FailedHere) := by
  cases h with
  | ended hrun hpass herror => exact ⟨_, hrun, hpass.eq_of_nil, herror⟩
  | overflow hrun hnone => cases hnone

/-- Only the run of the computation from this world matters. -/
theorem of_run_eq {z : Run τ ω (Outcome α)} (h : x.Takes ruler w ts outcome)
    (hrun : z.run w = x.run w) : z.Takes ruler w ts outcome := by
  cases h with
  | ended hx hpass herror => exact .ended (hrun.trans hx) hpass herror
  | overflow hx hnone => exact .overflow (hrun.trans hx) hnone

theorem map (h : x.Takes ruler w ts outcome) (f : α → β) :
    (x >>= fun outcome => pure (outcome.map f)).Takes ruler w ts (outcome.map f) := by
  cases h with
  | ended hrun hpass herror =>
      refine .ended (run_bind_of_ok hrun) hpass ?_
      rwa [Outcome.isSuccess_map]
  | overflow hrun hnone => exact .overflow (run_bind_of_error hrun) hnone

/-- Other expectations do not change what an error is about. -/
theorem withExpected (h : x.Takes ruler w ts outcome) (expected : List (Expected τ)) :
    (component expected false x fun v c => return .success v c).Takes ruler w ts outcome := by
  obtain ⟨hanswer, hsame⟩ := run_component_success expected x w
  rcases hrun' : (component expected false x fun v c => return .success v c).run w with ⟨r, w''⟩
  rw [hrun'] at hanswer hsame
  cases h with
  | @ended w' hrun hpass herror =>
      rw [hrun] at hanswer hsame
      obtain rfl : r = .ok outcome := hanswer
      have hplace : w''.state.place = w'.state.place := hsame.place
      refine .ended hrun' (hplace ▸ hpass) ?_
      refine herror.imp_right fun hcause => ?_
      rw [State.FailedHere, State.peek, State.position, State.isAtEnd, hplace, hsame.cause]
      exact hcause
  | overflow hrun hnone =>
      rw [hrun] at hanswer
      obtain rfl : r = .error .overflow := hanswer
      exact .overflow hrun' hnone

theorem pair {f : α → β → γ} {a : α} {b : β} {c₁ c₂ : Bool} (expected : List (Expected τ))
    (hx : x.Takes ruler w ts (.success a c₁))
    (hy : ∀ w' : World τ ω, w.state.place.Passes ruler ts w'.state.place →
      y.Takes ruler w' us (.success b c₂)) :
    (Run.pair expected f x y).Takes ruler w (ts ++ us) (.success (f a b) (c₁ || c₂)) := by
  cases hx with
  | ended hfirst hpass =>
      cases hy _ hpass with
      | ended hsecond hpass' =>
          exact .ended (run_pair_of_success hfirst hsecond expected) (hpass.trans hpass') (.inl rfl)
      | overflow hsecond hnone =>
          exact .overflow (run_pair_of_error_second hfirst hsecond expected)
            ((hpass.positionAfter_append us).trans hnone)
  | overflow hfirst hnone =>
      exact .overflow (run_pair_of_error_first hfirst expected)
        (Ruler.positionAfter_append_eq_none hnone us)

theorem pair_of_failure {f : α → β → γ} {c : Bool} (expected : List (Expected τ))
    (hx : x.Takes ruler w ts (.failure c)) :
    (Run.pair expected f x y).Takes ruler w ts (.failure c) := by
  cases hx with
  | ended hfirst hpass herror =>
      refine .ended (run_pair_of_failure_first hfirst expected) hpass (.inr ?_)
      rcases herror with hsuccess | hcause
      · cases hsuccess
      · exact hcause
  | overflow hfirst hnone => exact .overflow (run_pair_of_error_first hfirst expected) hnone

end Takes

/-! ## Steps -/

theorem takes_success (v : α) (c : Bool) :
    (pure (.success v c) : Run τ ω (Outcome α)).Takes ruler w [] (.success v c) :=
  .ended rfl (.refl _) (.inl rfl)

theorem takes_failAtEnd (hrest : w.state.place.rest = []) (expected : List (Expected τ))
    (c : Bool) :
    (failAtEnd expected c : Run τ ω (Outcome α)).Takes ruler w [] (.failure c) :=
  .ended rfl (.refl _) (.inr (State.failedHere_failAtEnd hrest expected))

theorem takes_failAtToken {t : τ} (hrest : w.state.place.rest = t :: us)
    (expected : List (Expected τ)) (c : Bool) :
    (failAtToken expected t c : Run τ ω (Outcome α)).Takes ruler w [] (.failure c) :=
  .ended rfl (.refl _) (.inr (State.failedHere_failAtToken hrest expected))

/-- Reads a token and goes on behind it. -/
theorem takes_advance {t : τ} {rest : List τ} (hrest : w.state.place.rest = t :: rest)
    (hx : ∀ w' : World τ ω, w.state.place.Passes ruler [t] w'.state.place →
      x.Takes ruler w' us outcome) :
    (advance ruler >>= fun _ => x).Takes ruler w (t :: us) outcome := by
  rcases hnext : w.state.place.next? ruler with _ | q
  · refine .overflow (run_bind_of_error (run_advance_of_none hnext)) ?_
    simp only [Place.next?, hrest, Option.map_eq_none_iff] at hnext
    rw [Ruler.positionAfter_cons]
    exact congrArg (Option.bind · _) hnext
  · have hadvance := run_bind_of_ok (f := fun _ => x) (run_advance_of_some hnext)
    have hpass : w.state.place.Passes ruler [t] q := Place.passes_of_next? hrest hnext
    cases hx { w with state := { w.state with place := q } } hpass with
    | ended hrun hpass' herror =>
        exact .ended (hadvance.trans hrun) (hpass.trans hpass') herror
    | overflow hrun hnone =>
        exact .overflow (hadvance.trans hrun) ((hpass.positionAfter_append us).trans hnone)

/-! ## The next token -/

section Class

variable {accepts : τ → Bool}

section Next

variable {next : τ → Run τ ω (Outcome α)}

theorem takes_next_of_accepted {t : τ} (hrest : w.state.place.rest = t :: us)
    (haccepts : accepts t = true) (expected : List (Expected τ)) (c : Bool)
    (h : (next t).Takes ruler w ts outcome) :
    Takes ruler (do
      match (← getState).peek with
      | none => failAtEnd expected c
      | some t => if accepts t then next t else failAtToken expected t c) w ts outcome := by
  have hpeek : w.state.peek = some t := congrArg List.head? hrest
  refine h.of_run_eq ?_
  rw [run_bind_of_ok (run_getState w), hpeek]
  simp only [haccepts, if_true]

theorem takes_next_of_halts (hhalts : Halts accepts w.state.place.rest)
    (expected : List (Expected τ)) (c : Bool) :
    Takes ruler (do
      match (← getState).peek with
      | none => failAtEnd expected c
      | some t => if accepts t then next t else failAtToken expected t c) w [] (.failure c) := by
  rcases hrest : w.state.place.rest with _ | ⟨t, us⟩
  · have hpeek : w.state.peek = none := congrArg List.head? hrest
    refine (takes_failAtEnd hrest expected c).of_run_eq ?_
    rw [run_bind_of_ok (run_getState w), hpeek]
  · have hpeek : w.state.peek = some t := congrArg List.head? hrest
    have hrefused : accepts t = false := hhalts t hpeek
    refine (takes_failAtToken hrest expected c).of_run_eq ?_
    rw [run_bind_of_ok (run_getState w), hpeek]
    simp only [hrefused, Bool.false_eq_true, if_false]

end Next

/-! ## Runs of a class -/

theorem takes_satisfy_of_accepted (ruler : Ruler τ) {t : τ}
    (hrest : w.state.place.rest = t :: us) (haccepts : accepts t = true)
    (expected : List (Expected τ)) :
    (satisfy ruler accepts expected).Takes ruler w [t] (.success t true) :=
  takes_next_of_accepted hrest haccepts expected false
    (takes_advance hrest fun _ _ => takes_success t true)

theorem takes_satisfy_of_halts (ruler : Ruler τ) (hhalts : Halts accepts w.state.place.rest)
    (expected : List (Expected τ)) :
    (satisfy ruler accepts expected).Takes ruler w [] (.failure false) :=
  takes_next_of_halts hhalts expected false

/-- The attempts of a chain go through the longest run, and the attempt behind it fails without
    consuming. Or else an attempt in between finds no position behind its token. -/
theorem exists_repeats_takeWhile (ruler : Ruler τ) (accepts : τ → Bool)
    (expected : List (Expected τ)) (hrest : w.state.place.rest = ts) :
    (∃ u, (satisfy ruler accepts expected).Repeats w (ts.takeWhile accepts) u ∧
      w.state.place.Passes ruler (ts.takeWhile accepts) u.state.place ∧
      (satisfy ruler accepts expected).Takes ruler u [] (.failure false)) ∨
    (∃ vs u w', (satisfy ruler accepts expected).Repeats w vs u ∧
      (satisfy ruler accepts expected).run u = (.error .overflow, w')) ∧
      ruler.positionAfter w.state.position (ts.takeWhile accepts) = none := by
  induction ts generalizing w with
  | nil =>
      have hhalts : Halts accepts w.state.place.rest := hrest ▸ .nil
      exact .inl ⟨w, .nil w, .refl _, takes_satisfy_of_halts ruler hhalts expected⟩
  | cons t ts ih =>
      by_cases haccepts : accepts t = true
      · rw [List.takeWhile_cons_of_pos haccepts]
        have htoken : (satisfy ruler accepts expected).Takes ruler w [t] (.success t true) :=
          takes_satisfy_of_accepted ruler hrest haccepts expected
        cases htoken with
        | @ended w₁ hrun hpass =>
            have hrest₁ : w₁.state.place.rest = ts := hpass.rest_eq_of_append hrest
            rcases ih hrest₁ with ⟨u, hrepeats, hpass', hlast⟩ |
              ⟨⟨vs, u, w', hrepeats, hlast⟩, hnone⟩
            · exact .inl ⟨u, .cons hrun hrepeats, hpass.trans hpass', hlast⟩
            · exact .inr ⟨⟨t :: vs, u, w', .cons hrun hrepeats, hlast⟩,
                (hpass.positionAfter_append _).trans hnone⟩
        | overflow hrun hnone =>
            exact .inr ⟨⟨[], w, _, .nil w, hrun⟩, Ruler.positionAfter_append_eq_none hnone _⟩
      · rw [List.takeWhile_cons_of_neg haccepts]
        have hhalts : Halts accepts w.state.place.rest := hrest ▸ .cons (by simpa using haccepts) ts
        exact .inl ⟨w, .nil w, .refl _, takes_satisfy_of_halts ruler hhalts expected⟩

/-- A chain of a class folds the longest run, and fails where that is empty. -/
theorem takes_chain (ruler : Ruler τ) {run : List τ}
    (hlongest : w.state.place.rest.takeWhile accepts = run) (expected : List (Expected τ))
    (name : String) (seed : β) (combine : β → τ → β) :
    (chain name seed combine (satisfy ruler accepts expected)).Takes ruler w run
      (if run.isEmpty then .failure false else .success (run.foldl combine seed) true) := by
  have hmoves : (satisfy ruler accepts expected : Run τ ω _).Moves ruler false :=
    .satisfy accepts expected
  have hrow := exists_repeats_takeWhile (w := w) ruler accepts expected rfl
  rw [hlongest] at hrow
  rcases hrow with ⟨u, hrepeats, hpass, hlast⟩ | ⟨⟨vs, u, w', hrepeats, hlast⟩, hnone⟩
  · obtain ⟨u', hfailed, hplace, herror⟩ := hlast.exists_of_nil
    have hbehind : w.state.place.Passes ruler run u'.state.place := hplace ▸ hpass
    by_cases hempty : run = []
    · -- the attempt behind an empty run is the first one
      rw [hempty] at hrepeats hbehind ⊢
      cases hrepeats
      exact .ended ((ChainEnds.missing hfailed).run_eq hmoves) hbehind herror
    · rw [if_neg (by simpa using hempty)]
      exact .ended ((ChainEnds.ended hempty hrepeats hfailed).run_eq hmoves) hbehind (.inl rfl)
  · exact .overflow ((ChainEnds.stopped hrepeats hlast).run_eq hmoves) hnone

end Class

end Run

namespace Parser

variable {call : Calls τ ρ ω} {copy : Nat} {w : World τ ω} {ts : List τ}

/-- A value for nothing, where there is no token of the class. -/
theorem takes_orElse {p q : Parser τ ρ ω α} {v : α} {value : α}
    (hp : (p.eval ruler call copy).Takes ruler w ts
      (if ts.isEmpty then .failure false else .success value true))
    (hq : q.IsValue v) (hv : ts = [] → v = value) :
    ((orElse p q).eval ruler call copy).Takes ruler w ts (.success value (!ts.isEmpty)) := by
  cases hp with
  | overflow hrun hnone => exact .overflow (run_orElse_of_error hrun) hnone
  | @ended w' hrun hpass =>
      cases ts with
      | nil =>
          obtain rfl := hv rfl
          have hnothing := congrArg (·.run w') (hq.eval ruler call copy)
          exact .ended (run_orElse_of_failure hrun hnothing) hpass (.inl rfl)
      | cons t ts => exact .ended (run_orElse_of_committed hrun rfl) hpass (.inl rfl)

/-! ## Repetitions of a class -/

section Class

variable {accepts : τ → Bool} {run : List τ}
  (hlongest : w.state.place.rest.takeWhile accepts = run) (expected : List (Expected τ))
  (name : String)

include hlongest

theorem takes_many1 :
    ((many1 name (satisfy accepts expected)).eval ruler call copy).Takes ruler w run
      (if run.isEmpty then .failure false else .success run true) := by
  have hchain := Run.takes_chain ruler hlongest expected name [] (fun vs v => v :: vs)
  -- the list is built backwards and turned round in the end
  have hlist : (run.foldl (fun vs v => v :: vs) []).reverse = run := by simp
  have hmap := hchain.map List.reverse
  rw [apply_ite (Outcome.map List.reverse), Outcome.map, Outcome.map, hlist] at hmap
  exact hmap

theorem takes_many :
    ((many name (satisfy accepts expected)).eval ruler call copy).Takes ruler w run
      (.success run (!run.isEmpty)) :=
  takes_orElse (takes_many1 hlongest expected name) (isValue_map_unit []) Eq.symm

theorem takes_skipMany :
    ((skipMany name (satisfy accepts expected)).eval ruler call copy).Takes ruler w run
      (.success () (!run.isEmpty)) :=
  takes_orElse (Run.takes_chain ruler hlongest expected name () (fun _ _ => ())) (isValue_value ())
    fun _ => rfl

end Class

/-! ## Runs of characters -/

section Characters

variable {ruler : Ruler Char} {call : Calls Char ρ ω} {w : World Char ω}

section Class

variable {accepts : Char → Bool} {run : List Char}
  (hlongest : w.state.place.rest.takeWhile accepts = run) (expected : List (Expected Char))
  (name : String)

theorem singleton_append_ofList (c : Char) (cs : List Char) :
    String.singleton c ++ String.ofList cs = String.ofList (c :: cs) := by
  rw [String.singleton_eq_ofList, ← String.ofList_append, List.singleton_append]

/-- Joining characters one by one gives the text of all of them. -/
theorem foldl_append_singleton (s : String) (cs : List Char) :
    cs.foldl (fun joined c => joined ++ String.singleton c) s = s ++ String.ofList cs := by
  induction cs generalizing s with
  | nil => simp
  | cons c cs ih => rw [List.foldl_cons, ih, String.append_assoc, singleton_append_ofList]

include hlongest

theorem takes_manyString1 :
    ((manyString1 name String.singleton (satisfy accepts expected)).eval ruler call copy).Takes
      ruler w run (if run.isEmpty then .failure false else .success (String.ofList run) true) := by
  have hchain := Run.takes_chain ruler hlongest expected name ""
    (fun joined c => joined ++ String.singleton c)
  rw [foldl_append_singleton, String.empty_append] at hchain
  exact hchain

theorem takes_manyString :
    ((manyString name String.singleton (satisfy accepts expected)).eval ruler call copy).Takes
      ruler w run (.success (String.ofList run) (!run.isEmpty)) :=
  takes_orElse (takes_manyString1 hlongest expected name) (isValue_value "") fun h => by
    rw [h, String.ofList_nil]

end Class

theorem takes_identifier_of_letter {c : Char} {cs : List Char}
    (hrest : w.state.place.rest = c :: cs) (hletter : c.isAlpha = true) :
    let run := c :: cs.takeWhile isWordChar
    (identifier.eval ruler call copy).Takes ruler w run (.success (String.ofList run) true) := by
  have hfirst := Run.takes_satisfy_of_accepted ruler hrest hletter
    [.labelled "letter" []]
  have hword := hfirst.pair (f := fun head rest => String.singleton head ++ rest)
    (y := (manyString className String.singleton letterOrDigit).eval ruler call copy)
    (identifier : Parser Char ρ ω String).expected fun w' hpass => by
      have hrest' : w'.state.place.rest = cs := hpass.rest_eq_of_append hrest
      exact takes_manyString (congrArg _ hrest') _ _
  rw [singleton_append_ofList] at hword
  exact hword

theorem takes_identifier_of_halts (hhalts : Halts Char.isAlpha w.state.place.rest) :
    (identifier.eval ruler call copy).Takes ruler w [] (.failure false) :=
  (Run.takes_satisfy_of_halts ruler hhalts _).pair_of_failure _

end Characters

/-! ## The longest run -/

/-- **Classes take the longest run.** Any number of tokens of a class are the longest run of such
    tokens at the start of the rest: the run is the value, the parse goes on right behind it, and it
    has consumed exactly if there is a token in the run. At least one token of the class is the same
    run, and where it is empty a failure at this place that has not consumed.

    In particular a number takes the longest run of digits, an identifier takes a letter and the
    longest run of letters, digits and underscores behind it and fails without consuming where there
    is no letter, and white space is taken as far as it goes, whatever is made of it. None of these
    is ever at fault, and they stop exactly where there is no position behind the run. -/
theorem classes_take_longest_run :
    (∀ {τ ω : Type} {ρ : Type → Type} (ruler : Ruler τ) (call : Calls τ ρ ω) (copy : Nat)
      (accepts : τ → Bool) (name : String) (w : World τ ω),
      let run := w.state.place.rest.takeWhile accepts
      ((many name (candidate accepts)).eval ruler call copy).Takes ruler w run
        (.success run (!run.isEmpty)) ∧
      ((many1 name (candidate accepts)).eval ruler call copy).Takes ruler w run
        (if run.isEmpty then .failure false else .success run true)) ∧
    ∀ {ω : Type} {ρ : Type → Type} (ruler : Ruler Char) (call : Calls Char ρ ω) (copy : Nat)
      (w : World Char ω),
      (let run := w.state.place.rest.takeWhile Char.isDigit
      (digits.eval ruler call copy).Takes ruler w run
        (if run.isEmpty then .failure false else .success (String.ofList run) true)) ∧
      ((∀ c cs, w.state.place.rest = c :: cs → c.isAlpha = true →
        let run := c :: cs.takeWhile isWordChar
        (identifier.eval ruler call copy).Takes ruler w run (.success (String.ofList run) true)) ∧
      (Halts Char.isAlpha w.state.place.rest →
        (identifier.eval ruler call copy).Takes ruler w [] (.failure false))) ∧
      let run := w.state.place.rest.takeWhile Text.isWhiteSpace
      (whiteSpaces.eval ruler call copy).Takes ruler w run (.success run (!run.isEmpty)) ∧
      (whiteSpaceString.eval ruler call copy).Takes ruler w run
        (.success (String.ofList run) (!run.isEmpty)) ∧
      (skipWhiteSpaces.eval ruler call copy).Takes ruler w run (.success () (!run.isEmpty)) := by
  refine ⟨fun ruler call copy accepts name w => ?_, fun ruler call copy w => ⟨?_, ⟨?_, ?_⟩, ?_⟩⟩
  · exact ⟨takes_many rfl _ name, takes_many1 rfl _ name⟩
  · exact takes_manyString1 rfl _ _
  · exact fun c cs hrest hletter => takes_identifier_of_letter hrest hletter
  · exact takes_identifier_of_halts
  · exact ⟨(takes_many rfl _ _).withExpected _, (takes_manyString rfl _ _).withExpected _,
      (takes_skipMany rfl _ _).withExpected _⟩

/-- Any number of tokens of a class do not always succeed: a run at the last column is not taken,
    because there is no column behind the token. -/
theorem class_untaken_at_last_column :
    let p : Parser Char (fun _ => Empty) Unit (List Char) :=
      many "candidate" (candidate fun _ => true)
    let ruler := Ruler.ofString (TextLayout.next {})
    let w : World Char Unit := ⟨State.initial ⟨1, Position.maxCoordinate⟩ ['a'], [], .empty⟩
    ∀ depth, ¬ ∃ vs c w',
      (p.eval ruler (calls ruler (fun _ => Empty.elim) depth) 0).run w =
        (.ok (.success vs c), w') := by
  intro p ruler w depth
  rintro ⟨vs, c, w', hrun⟩
  have hoverflow : (p.eval ruler (calls ruler (fun _ => Empty.elim) depth) 0).run w =
      (.error .overflow, _) := rfl
  rw [hoverflow] at hrun
  cases hrun

end Parser

end CommittedChoice
