import CommittedChoice.Proofs.Bookmarks
import CommittedChoice.Proofs.Place

set_option autoImplicit false

/-! # The consumed flag

Every parser works out for itself whether it consumed, while the place in the input is moved and put
back elsewhere. `Run.Moves ruler earlier x` ties the two together: however `x` ends, it has passed
some run of tokens, and if it ends with an outcome, the flag says whether that run is empty. The flag
of a part also covers what was read before it, so the statement carries `earlier`: the flag is on
exactly if it was on before or a token was passed since. In this form it composes (`Run.Moves.bind`)
and is the invariant of every loop.

Speculation needs the discipline of bookmarks: its rewind returns to the place where it started only
because its body has left the stack alone. The main statement is `Parser.consumed_eval_calls_iff`. -/

namespace CommittedChoice

variable {τ ω α β γ : Type} {ruler : Ruler τ}

/-! ## Steps that stay -/

/-- The computation ends with a value at the place where it started. -/
def Run.Still (x : Run τ ω α) : Prop :=
  ∀ w, ∃ a w', x.run w = (.ok a, w') ∧ w'.state.place = w.state.place

namespace Run.Still

theorem getState : (Run.getState : Run τ ω (State τ)).Still := fun w => ⟨w.state, w, rfl, rfl⟩

theorem bound : (Run.bound : Run τ ω Nat).Still := fun w => ⟨_, w, rfl, rfl⟩

theorem emit (event : Event ω) : (Run.emit event : Run τ ω Unit).Still :=
  fun _ => ⟨(), _, rfl, rfl⟩

theorem modifyState {g : State τ → State τ} (hg : ∀ s, (g s).place = s.place) :
    (Run.modifyState g : Run τ ω Unit).Still := fun w => ⟨(), _, rfl, hg w.state⟩

theorem resolve (cell : Cell) (sharing : Sharing) :
    (Run.resolve cell sharing : Run τ ω Nat).Still := by
  intro w
  simp only [Run.resolve]
  split
  · exact ⟨_, _, rfl, rfl⟩
  · exact ⟨_, _, rfl, rfl⟩

end Run.Still

/-! ## Computations that move -/

/-- However the computation ends, it has passed a run of tokens; with an outcome, the flag is on
    exactly if it was on before or the run is not empty, and with an overflow, the next token is one
    behind which there is no position. -/
def Run.Moves (ruler : Ruler τ) (earlier : Bool) (x : Run τ ω (Outcome α)) : Prop :=
  ∀ ⦃w : World τ ω⦄ ⦃r : Except Stop (Outcome α)⦄ ⦃w' : World τ ω⦄, x.run w = (r, w') →
    ∃ ts, w.state.place.Passes ruler ts w'.state.place ∧
      (∀ outcome, r = .ok outcome → outcome.consumed = (earlier || !ts.isEmpty)) ∧
      (r = .error .overflow → w'.state.place.next? ruler = none)

namespace Run.Moves

variable {earlier : Bool}

theorem length_rest_le {x : Run τ ω (Outcome α)} (hx : x.Moves ruler earlier) {w w' : World τ ω}
    {r : Except Stop (Outcome α)} (hrun : x.run w = (r, w')) :
    w'.state.place.rest.length ≤ w.state.place.rest.length := by
  obtain ⟨ts, hpass, -, -⟩ := hx hrun
  have hlength := hpass.length_rest
  omega

theorem length_rest_lt {x : Run τ ω (Outcome α)} (hx : x.Moves ruler false) {w w' : World τ ω}
    {outcome : Outcome α} (hrun : x.run w = (.ok outcome, w')) (hconsumed : outcome.consumed = true) :
    w'.state.place.rest.length < w.state.place.rest.length := by
  obtain ⟨ts, hpass, hflag, -⟩ := hx hrun
  have hlength := hpass.length_rest
  have hts : 0 < ts.length := by
    rw [List.length_pos_iff]
    rintro rfl
    rw [hflag outcome rfl] at hconsumed
    cases hconsumed
  omega

theorem place_eq {x : Run τ ω (Outcome α)} (hx : x.Moves ruler false) {w w' : World τ ω}
    {outcome : Outcome α} (hrun : x.run w = (.ok outcome, w')) (hconsumed : outcome.consumed = false) :
    w'.state.place = w.state.place := by
  obtain ⟨ts, hpass, hflag, -⟩ := hx hrun
  have hts : ts = [] := by simpa [hconsumed] using hflag outcome rfl
  subst hts
  exact hpass.eq_of_nil

/-- Of two computations, one that has consumed is enough to leave fewer tokens. -/
theorem length_rest_lt_of_or {x : Run τ ω (Outcome α)} {y : Run τ ω (Outcome β)}
    (hx : x.Moves ruler false) (hy : y.Moves ruler false) {w w₁ w₂ : World τ ω}
    {first : Outcome α} {second : Outcome β} (hfirst : x.run w = (.ok first, w₁))
    (hsecond : y.run w₁ = (.ok second, w₂))
    (hconsumed : (first.consumed || second.consumed) = true) :
    w₂.state.place.rest.length < w.state.place.rest.length := by
  have hle₁ := hx.length_rest_le hfirst
  have hle₂ := hy.length_rest_le hsecond
  rcases Bool.or_eq_true_iff.1 hconsumed with hconsumed | hconsumed
  · have hlt := hx.length_rest_lt hfirst hconsumed
    omega
  · have hlt := hy.length_rest_lt hsecond hconsumed
    omega

/-- A computation that leaves the place alone and tells what was known before. -/
theorem of_place_eq {x : Run τ ω (Outcome α)}
    (h : ∀ w, (x.run w).2.state.place = w.state.place ∧ (x.run w).1 ≠ .error .overflow ∧
      ∀ outcome, (x.run w).1 = .ok outcome → outcome.consumed = earlier) :
    x.Moves ruler earlier := by
  intro w r w' hrun
  obtain ⟨hplace, hstop, hflag⟩ := h w
  rw [hrun] at hplace hstop hflag
  refine ⟨[], ?_, ?_, ?_⟩
  · rw [hplace]
    exact .refl _
  · intro outcome houtcome
    rw [hflag outcome houtcome]
    simp
  · exact fun hoverflow => absurd hoverflow hstop

theorem pure {outcome : Outcome α} (h : outcome.consumed = earlier) :
    (Pure.pure outcome : Run τ ω (Outcome α)).Moves ruler earlier := by
  refine of_place_eq fun w => ⟨rfl, nofun, ?_⟩
  rintro _ ⟨⟩
  exact h

theorem fault (error : GrammarError) :
    (Run.stop (.fault error) : Run τ ω (Outcome α)).Moves ruler earlier :=
  of_place_eq fun _ => ⟨rfl, nofun, nofun⟩

theorem unfinished : (Run.stop .unfinished : Run τ ω (Outcome α)).Moves ruler earlier :=
  of_place_eq fun _ => ⟨rfl, nofun, nofun⟩

/-- One computation after another. The flag of the first one tells the second one what was earlier,
    to which the second one may add something of its own. -/
theorem bind_or {x : Run τ ω (Outcome α)} {f : Outcome α → Run τ ω (Outcome β)} (before : Bool)
    (hx : x.Moves ruler earlier)
    (hf : ∀ outcome, (f outcome).Moves ruler (before || outcome.consumed)) :
    (x >>= f).Moves ruler (before || earlier) := by
  intro w r w' hrun
  rcases hfirst : x.run w with ⟨stop | outcome, w₁⟩
  · rw [run_bind_of_error hfirst] at hrun
    obtain ⟨rfl, rfl⟩ := Prod.mk.inj hrun
    obtain ⟨ts, hpass, -, hstuck⟩ := hx hfirst
    exact ⟨ts, hpass, fun _ h => (by cases h), fun h => hstuck (by rw [Except.error.inj h])⟩
  · rw [run_bind_of_ok hfirst] at hrun
    obtain ⟨ts, hpass, hflag, -⟩ := hx hfirst
    obtain ⟨us, hpass', hflag', hstuck⟩ := hf outcome hrun
    -- the flag of the second part covers `ts` already, because it was told the flag of the first
    refine ⟨ts ++ us, hpass.trans hpass', ?_, hstuck⟩
    intro outcome' houtcome'
    rw [hflag' outcome' houtcome', hflag outcome rfl]
    cases ts <;> simp [Bool.or_assoc]

theorem bind {x : Run τ ω (Outcome α)} {f : Outcome α → Run τ ω (Outcome β)}
    (hx : x.Moves ruler false)
    (hf : ∀ outcome, (f outcome).Moves ruler (earlier || outcome.consumed)) :
    (x >>= f).Moves ruler earlier := by
  simpa using bind_or earlier hx hf

theorem map {x : Run τ ω (Outcome α)} (hx : x.Moves ruler earlier) (f : α → β) :
    (x >>= fun outcome => Pure.pure (outcome.map f)).Moves ruler earlier :=
  bind_or false hx fun outcome => pure (by simp)

theorem of_still {x : Run τ ω α} {f : α → Run τ ω (Outcome β)} (hx : x.Still)
    (hf : ∀ a, (f a).Moves ruler earlier) : (x >>= f).Moves ruler earlier := by
  intro w r w' hrun
  obtain ⟨a, w₁, hfirst, hplace⟩ := hx w
  rw [run_bind_of_ok hfirst] at hrun
  rw [← hplace]
  exact hf a hrun

theorem emit {event : Event ω} {x : Run τ ω (Outcome α)} (hx : x.Moves ruler earlier) :
    (Run.emit event >>= fun _ => x).Moves ruler earlier :=
  of_still (.emit event) fun _ => hx

theorem modifyState {g : State τ → State τ} (hg : ∀ s, (g s).place = s.place)
    {x : Run τ ω (Outcome α)} (hx : x.Moves ruler earlier) :
    (Run.modifyState g >>= fun _ => x).Moves ruler earlier :=
  of_still (.modifyState hg) fun _ => hx

/-! ## Failing -/

theorem fail (expected : List (Expected τ)) (unexpected : Option τ) (message : String)
    (consumed atEnd : Bool) :
    (Run.fail expected unexpected message consumed atEnd : Run τ ω (Outcome α)).Moves ruler
      consumed := by
  refine modifyState ?_ (pure rfl)
  exact fun _ => rfl

theorem failAtEnd (expected : List (Expected τ)) (consumed : Bool) :
    (Run.failAtEnd expected consumed : Run τ ω (Outcome α)).Moves ruler consumed := by
  refine modifyState ?_ (pure rfl)
  exact fun _ => rfl

theorem failAtToken (expected : List (Expected τ)) (t : τ) (consumed : Bool) :
    (Run.failAtToken expected t consumed : Run τ ω (Outcome α)).Moves ruler consumed := by
  refine modifyState ?_ (pure rfl)
  exact fun _ => rfl

theorem forward (expected : List (Expected τ)) (consumed : Bool) :
    (Run.forward expected consumed : Run τ ω (Outcome α)).Moves ruler consumed := by
  refine modifyState ?_ (pure rfl)
  exact fun _ => rfl

theorem loopFault (loop : Loop) (parser : String) :
    (Run.loopFault loop parser : Run τ ω (Outcome α)).Moves ruler earlier :=
  of_still .getState fun _ => emit (fault _)

/-! ## Leaves -/

/-- Reading the next token, where the rest of the computation knows that a token was read. -/
theorem advance_of_peek {w : World τ ω} {t : τ} (hpeek : w.state.peek = some t)
    {x : Run τ ω (Outcome α)} (hx : x.Moves ruler true) {r : Except Stop (Outcome α)}
    {w' : World τ ω} (hrun : (Run.advance ruler >>= fun _ => x).run w = (r, w')) :
    ∃ ts, w.state.place.Passes ruler ts w'.state.place ∧
      (∀ outcome, r = .ok outcome → outcome.consumed = (earlier || !ts.isEmpty)) ∧
      (r = .error .overflow → w'.state.place.next? ruler = none) := by
  obtain ⟨us, hrest⟩ : ∃ us, w.state.place.rest = t :: us := List.head?_eq_some_iff.1 hpeek
  cases hnext : w.state.place.next? ruler with
  | none =>
      rw [run_bind_of_error (run_advance_of_none hnext)] at hrun
      obtain ⟨rfl, rfl⟩ := Prod.mk.inj hrun
      exact ⟨[], .refl _, fun _ h => (by cases h), fun _ => hnext⟩
  | some q =>
      rw [run_bind_of_ok (run_advance_of_some hnext)] at hrun
      obtain ⟨ts, hpass, hflag, hstuck⟩ := hx hrun
      -- the token just read makes the flag right, whatever `earlier` was
      refine ⟨[t] ++ ts, (Place.passes_of_next? hrest hnext).trans hpass, ?_, hstuck⟩
      intro outcome houtcome
      rw [hflag outcome houtcome]
      simp

theorem satisfy (accepts : τ → Bool) (expected : List (Expected τ)) :
    (Run.satisfy ruler accepts expected : Run τ ω (Outcome τ)).Moves ruler false := by
  intro w r w' hrun
  rw [Run.satisfy, run_bind_of_ok (run_getState w)] at hrun
  split at hrun
  · exact failAtEnd expected false hrun
  · next t hpeek =>
      split at hrun
      · exact advance_of_peek hpeek (pure rfl) hrun
      · exact failAtToken expected t false hrun

theorem spelled (expected : List (Expected τ)) (tests : List (τ → Bool)) (earlier : Bool) :
    (Run.spelled ruler expected earlier tests : Run τ ω (Outcome (List τ))).Moves ruler
      earlier := by
  induction tests generalizing earlier with
  | nil => exact pure rfl
  | cons accepts tests ih =>
      intro w r w' hrun
      rw [Run.spelled, run_bind_of_ok (run_getState w)] at hrun
      split at hrun
      · exact failAtEnd expected earlier hrun
      · next t hpeek =>
          split at hrun
          · exact advance_of_peek hpeek ((ih true).map _) hrun
          · exact failAtToken expected t earlier hrun

theorem endOfInput (expected : List (Expected τ)) :
    (Run.endOfInput expected : Run τ ω (Outcome Unit)).Moves ruler false := by
  refine of_still .getState fun s => ?_
  split
  · exact pure rfl
  · exact fail expected _ _ false false

/-! ## Sequences -/

theorem component {expected : List (Expected τ)} {x : Run τ ω (Outcome α)}
    {next : α → Bool → Run τ ω (Outcome β)} (hx : x.Moves ruler false)
    (hnext : ∀ v consumed, (next v consumed).Moves ruler consumed) :
    (Run.component expected earlier x next).Moves ruler earlier := by
  refine bind hx fun outcome => ?_
  cases outcome with
  | success v consumed => exact hnext v (earlier || consumed)
  | failure consumed => exact forward expected (earlier || consumed)

theorem all {expected : List (Expected τ)} {xs : List (Run τ ω (Outcome α))}
    (hxs : ∀ x ∈ xs, x.Moves ruler false) : (Run.all expected earlier xs).Moves ruler earlier := by
  induction xs generalizing earlier with
  | nil => exact pure rfl
  | cons x xs ih =>
      have htail : ∀ y ∈ xs, y.Moves ruler false := fun y hy => hxs y (List.mem_cons_of_mem x hy)
      exact component (hxs x List.mem_cons_self) fun v consumed => (ih htail).map _

theorem dependent {f : α → β → γ} {x : Run τ ω (Outcome α)} {next : α → Run τ ω (Outcome β)}
    (hx : x.Moves ruler false) (hnext : ∀ v, (next v).Moves ruler false) :
    (Run.dependent f x next).Moves ruler false := by
  refine bind hx fun outcome => ?_
  cases outcome with
  | success v consumed =>
      refine bind (hnext v) fun outcome => pure ?_
      rw [Outcome.consumed_after, Outcome.consumed_map, Bool.or_comm]
      rfl
  | failure consumed => exact pure rfl

/-! ## Choice and conditions -/

/-- An alternative that is not final has not moved, so that the next one starts at the same place. -/
theorem alternatives {exhausted : Option (ParseError τ) → Run τ ω (Outcome α)}
    {best : Option (ParseError τ)} {xs : List (Run τ ω (Outcome α))}
    (hxs : ∀ x ∈ xs, x.Moves ruler false) (hexhausted : ∀ e, (exhausted e).Moves ruler false) :
    (Run.alternatives exhausted best xs).Moves ruler false := by
  induction xs generalizing best with
  | nil => exact hexhausted best
  | cons x xs ih =>
      have htail : ∀ y ∈ xs, y.Moves ruler false := fun y hy => hxs y (List.mem_cons_of_mem x hy)
      refine bind (hxs x List.mem_cons_self) fun outcome => ?_
      split
      · exact pure rfl
      · next hcommitted =>
          have hflag : outcome.consumed = false := by
            simp only [Outcome.isCommitted, Bool.or_eq_true, not_or, Bool.not_eq_true] at hcommitted
            exact hcommitted.2
          -- what was known before the next alternative is what was known before this one
          rw [hflag]
          exact of_still .getState fun _ => ih htail

theorem choice {expected : List (Expected τ)} {xs : List (Run τ ω (Outcome α))}
    (hxs : ∀ x ∈ xs, x.Moves ruler false) : (Run.choice expected xs).Moves ruler false := by
  refine alternatives hxs fun e => ?_
  cases e with
  | none => exact fail expected none _ false false
  | some error =>
      refine emit (modifyState ?_ (forward expected false))
      exact fun _ => rfl

theorem negate {expected : List (Expected τ)} {message : String} {x : Run τ ω (Outcome α)}
    (hx : x.Moves ruler false) : (Run.negate expected message x).Moves ruler false := by
  refine of_still .getState fun before => bind hx fun outcome => ?_
  cases outcome with
  | success v consumed =>
      refine modifyState ?_ (pure rfl)
      exact fun _ => rfl
  | failure consumed => exact pure rfl

theorem check {expected : List (Expected τ)} {accepts : α → Bool} {message : α → String}
    {x : Run τ ω (Outcome α)} (hx : x.Moves ruler false) :
    (Run.check expected accepts message x).Moves ruler false := by
  refine bind hx fun outcome => ?_
  cases outcome with
  | success v consumed =>
      show (if accepts v then _ else _ : Run τ ω (Outcome α)).Moves ruler consumed
      split
      · exact pure rfl
      · exact fail expected none (message v) consumed false
  | failure consumed => exact pure rfl

/-! ## Speculation -/

/-- The body of a speculation ends with the bookmark `q` of the speculation on top of the stack, and
    what it has passed lies behind `q`. From there `finish` may stay or go back. -/
theorem speculate {x : Run τ ω (Outcome α)} {finish : Outcome α → Run τ ω (Outcome β)}
    (hx : x.Moves ruler false) (hbookmarks : x.KeepsBookmarks)
    (hfinish : ∀ outcome w q bookmarks ts, w.state.bookmarks = q :: bookmarks →
      q.Passes ruler ts w.state.place → outcome.consumed = !ts.isEmpty →
      ∃ outcome' s us, (finish outcome).run w = (.ok outcome', { w with state := s }) ∧
        q.Passes ruler us s.place ∧ outcome'.consumed = !us.isEmpty) :
    (Run.speculate x finish).Moves ruler false := by
  intro w r w' hrun
  have hkeep := hbookmarks { w with state := w.state.pushBookmark }
  simp only [Run.speculate] at hrun
  rcases hbody : x.run { w with state := w.state.pushBookmark } with ⟨stop | outcome, w₁⟩
  · -- a stop takes the bookmark away and stays where it is
    rw [hbody] at hrun
    obtain ⟨rfl, rfl⟩ := Prod.mk.inj hrun
    obtain ⟨ts, hpass, -, hstuck⟩ := hx hbody
    exact ⟨ts, hpass, fun _ h => (by cases h), fun h => hstuck (by rw [Except.error.inj h])⟩
  · -- the bookmark on top of the stack is the place where the speculation started
    rw [hbody] at hrun hkeep
    obtain ⟨ts, hpass, hflag, -⟩ := hx hbody
    obtain ⟨outcome', s, us, hend, hpass', hflag'⟩ :=
      hfinish outcome w₁ _ _ ts hkeep hpass (hflag outcome rfl)
    have hrun' : (finish outcome).run w₁ = (r, w') := hrun
    rw [hend] at hrun'
    obtain ⟨rfl, rfl⟩ := Prod.mk.inj hrun'
    refine ⟨us, hpass', ?_, fun h => by cases h⟩
    rintro _ ⟨⟩
    exact hflag'

theorem lookahead {x : Run τ ω (Outcome α)} (hx : x.Moves ruler false)
    (hbookmarks : x.KeepsBookmarks) : (Run.lookahead x).Moves ruler false := by
  refine speculate hx hbookmarks fun outcome w q bookmarks ts hstack hpass hflag => ?_
  cases outcome with
  | success v consumed =>
      refine ⟨.success v false, w.state.rewind, [], rfl, ?_, rfl⟩
      rw [State.rewind_of_cons hstack]
      exact .refl q
  | failure consumed => exact ⟨.failure consumed, w.state.popBookmark, ts, rfl, hpass, hflag⟩

theorem safe {x : Run τ ω (Outcome α)} (hx : x.Moves ruler false)
    (hbookmarks : x.KeepsBookmarks) : (Run.safe x).Moves ruler false := by
  refine speculate hx hbookmarks fun outcome w q bookmarks ts hstack hpass hflag => ?_
  cases outcome with
  | success v consumed =>
      exact ⟨.success v consumed, w.state.popBookmark, ts, rfl, hpass, hflag⟩
  | failure consumed =>
      refine ⟨.failure false, w.state.rewind, [], rfl, ?_, rfl⟩
      rw [State.rewind_of_cons hstack]
      exact .refl q

/-! ## Repetition -/

/-- The flag is the invariant of a loop: it is on exactly if some round so far has consumed. -/
theorem rounds {loop : Loop} {name : String} {combine : β → α → β} {x : Run τ ω (Outcome α)}
    (hx : x.Moves ruler false) (fuel : Nat) (acc : β) (consumed : Bool) (count : Nat) :
    (Run.rounds loop name combine x fuel acc consumed count).Moves ruler consumed := by
  induction fuel generalizing acc consumed count with
  | zero => exact unfinished
  | succ fuel ih =>
      refine bind hx fun outcome => ?_
      rcases outcome with ⟨v, _ | _⟩ | _ | _
      · exact loopFault loop name
      · -- a round that goes on has consumed, so from now on the flag is on
        rw [Outcome.consumed_success, Bool.or_true]
        exact ih (combine acc v) true (count + 1)
      · rw [Outcome.consumed_failure, Bool.or_false]
        exact emit (pure rfl)
      · rw [Outcome.consumed_failure, Bool.or_true]
        exact pure rfl

theorem chain {name : String} {seed : β} {combine : β → α → β} {x : Run τ ω (Outcome α)}
    (hx : x.Moves ruler false) : (Run.chain name seed combine x).Moves ruler false := by
  refine bind hx fun outcome => ?_
  cases outcome with
  | success v consumed => exact of_still .bound fun fuel => rounds hx fuel _ consumed 1
  | failure consumed => exact pure rfl

theorem continuation {expected : List (Expected τ)} {x : Run τ ω (Outcome α)}
    {separator : Run τ ω (Outcome β)} (hx : x.Moves ruler false)
    (hseparator : separator.Moves ruler false) :
    (Run.continuation expected separator x).Moves ruler false :=
  component hseparator fun _ _ => component hx fun _ _ => pure rfl

theorem separated {name : String} {expected : List (Expected τ)} {x : Run τ ω (Outcome α)}
    {separator : Run τ ω (Outcome β)} (hx : x.Moves ruler false)
    (hseparator : separator.Moves ruler false) :
    (Run.separated name expected x separator).Moves ruler false := by
  refine bind hx fun outcome => ?_
  cases outcome with
  | success v consumed =>
      exact of_still .bound fun fuel => (rounds (continuation hx hseparator) fuel [v] consumed 1).map _
  | failure consumed => exact pure rfl

theorem optionallyTerminatedRounds {name : String} {x : Run τ ω (Outcome α)}
    {separator : Run τ ω (Outcome β)} (hx : x.Moves ruler false)
    (hseparator : separator.Moves ruler false) (fuel : Nat) (found : List α) (consumed : Bool) :
    (Run.optionallyTerminatedRounds name x separator fuel found consumed).Moves ruler
      consumed := by
  induction fuel generalizing found consumed with
  | zero => exact unfinished
  | succ fuel ih =>
      refine bind hseparator fun outcome => ?_
      rcases outcome with ⟨u, separatorConsumed⟩ | _ | _
      · refine bind hx fun outcome => ?_
        rw [Outcome.consumed_success]
        rcases outcome with ⟨v, valueConsumed⟩ | _ | _
        · show (if separatorConsumed || valueConsumed then _ else _ :
            Run τ ω (Outcome (List α))).Moves ruler _
          split
          · next hsome =>
              rw [Outcome.consumed_success, Bool.or_assoc, hsome, Bool.or_true]
              exact ih (v :: found) true
          · exact loopFault .optionallyTerminated name
        · rw [Outcome.consumed_failure, Bool.or_false]
          exact emit (pure rfl)
        · rw [Outcome.consumed_failure, Bool.or_true]
          exact pure rfl
      · rw [Outcome.consumed_failure, Bool.or_false]
        exact pure rfl
      · rw [Outcome.consumed_failure, Bool.or_true]
        exact pure rfl

theorem optionallyTerminated {name : String} {x : Run τ ω (Outcome α)}
    {separator : Run τ ω (Outcome β)} (hx : x.Moves ruler false)
    (hseparator : separator.Moves ruler false) :
    (Run.optionallyTerminated name x separator).Moves ruler false := by
  refine bind hx fun outcome => ?_
  cases outcome with
  | success v consumed =>
      exact of_still .bound fun fuel => optionallyTerminatedRounds hx hseparator fuel [v] consumed
  | failure consumed => exact pure rfl

end Run.Moves

/-! ## Parsers -/

namespace Parser

variable {ρ : Type → Type}

theorem moves_eval {call : Calls τ ρ ω}
    (hcall : ∀ (β : Type) (rule : ρ β) (copy : Nat), (call β rule copy).Moves ruler false)
    (hbookmarks : ∀ (β : Type) (rule : ρ β) (copy : Nat), (call β rule copy).KeepsBookmarks)
    (p : Parser τ ρ ω α) (copy : Nat) : (p.eval ruler call copy).Moves ruler false := by
  induction p generalizing copy with
  | satisfy accepts expected => exact .satisfy accepts expected
  | spelled tests expected => exact .spelled expected tests false
  | endOfInput => exact .endOfInput _
  | fail message => exact .fail _ none message false false
  | value v => exact .pure rfl
  | position =>
      rw [eval_position]
      exact .of_still .getState fun _ => .pure rfl
  | recursive index sharing rule =>
      rw [eval_recursive]
      exact .of_still (.resolve _ sharing) fun copy => hcall _ rule copy
  | shared p ih => exact ih 0
  | adapt f p ih =>
      rw [eval_adapt]
      exact (ih copy).map f
  | map f p ih =>
      rw [eval_map]
      exact .component (ih copy) fun _ _ => .pure rfl
  | observe remark p ih =>
      rw [eval_observe]
      exact .component (ih copy) fun _ _ => .emit (.pure rfl)
  | map2 f p q ihp ihq =>
      rw [eval_map2]
      exact .component (ihp copy) fun _ _ => .component (ihq copy) fun _ _ => .pure rfl
  | map3 f p q r ihp ihq ihr =>
      rw [eval_map3]
      exact .component (ihp copy) fun _ _ => .component (ihq copy) fun _ _ =>
        .component (ihr copy) fun _ _ => .pure rfl
  | map4 f p q r s ihp ihq ihr ihs =>
      rw [eval_map4]
      exact .component (ihp copy) fun _ _ => .component (ihq copy) fun _ _ =>
        .component (ihr copy) fun _ _ => .component (ihs copy) fun _ _ => .pure rfl
  | all n ps ih =>
      rw [eval_all]
      refine .all fun x hx => ?_
      obtain ⟨i, rfl⟩ := List.mem_ofFn.1 hx
      exact ih i copy
  | bind f p next ihp ihnext =>
      rw [eval_bind]
      exact .dependent (ihp copy) fun v => ihnext v copy
  | choice n ps ih =>
      rw [eval_choice]
      refine .choice fun x hx => ?_
      obtain ⟨i, rfl⟩ := List.mem_ofFn.1 hx
      exact ih i copy
  | negate message p ih =>
      rw [eval_negate]
      exact .negate (ih copy)
  | check accepts message p ih =>
      rw [eval_check]
      exact .check (ih copy)
  | withExpected expected p ih =>
      rw [eval_withExpected]
      exact .component (ih copy) fun _ _ => .pure rfl
  | lookahead p ih => exact .lookahead (ih copy) (keepsBookmarks_eval hbookmarks p copy)
  | safe p ih => exact .safe (ih copy) (keepsBookmarks_eval hbookmarks p copy)
  | chain name seed combine p ih => exact .chain (ih copy)
  | separated name p separator ihp ihseparator => exact .separated (ihp copy) (ihseparator copy)
  | optionallyTerminated name p separator ihp ihseparator =>
      exact .optionallyTerminated (ihp copy) (ihseparator copy)

theorem moves_calls (ruler : Ruler τ) (rules : Rules τ ρ ω) (depth : Nat) {β : Type} (rule : ρ β)
    (copy : Nat) : (calls ruler rules depth β rule copy).Moves ruler false := by
  induction depth generalizing β copy with
  | zero => exact .unfinished
  | succ depth ih =>
      exact moves_eval (fun _ rule copy => ih rule copy)
        (fun _ rule copy => keepsBookmarks_calls ruler rules depth rule copy) _ copy

theorem moves_eval_calls (ruler : Ruler τ) (rules : Rules τ ρ ω) (depth : Nat)
    (p : Parser τ ρ ω α) (copy : Nat) :
    (p.eval ruler (calls ruler rules depth) copy).Moves ruler false :=
  moves_eval (fun _ rule copy => moves_calls ruler rules depth rule copy)
    (fun _ rule copy => keepsBookmarks_calls ruler rules depth rule copy) p copy

/-- **The consumed flag is exact.** No parse ends before the place where it started. If it ends with
    an outcome, then the flag is on exactly if the cursor is larger than it was, and off exactly if
    the cursor, the position and the next token are what they were. -/
theorem consumed_eval_calls_iff {rules : Rules τ ρ ω} {depth : Nat} {p : Parser τ ρ ω α}
    {copy : Nat} {w w' : World τ ω} {r : Except Stop (Outcome α)}
    (hrun : (p.eval ruler (calls ruler rules depth) copy).run w = (r, w')) :
    w.state.cursor ≤ w'.state.cursor ∧
      ∀ outcome, r = .ok outcome →
        (outcome.consumed = true ↔ w.state.cursor < w'.state.cursor) ∧
        (outcome.consumed = false ↔
          w'.state.cursor = w.state.cursor ∧ w'.state.position = w.state.position ∧
            w'.state.peek = w.state.peek) := by
  obtain ⟨ts, hpass, hflag, -⟩ := moves_eval_calls ruler rules depth p copy hrun
  have hcursor : w'.state.cursor = w.state.cursor + ruler.extent ts := hpass.cursor
  refine ⟨by omega, fun outcome houtcome => ?_⟩
  rw [hflag outcome houtcome]
  rcases ts with _ | ⟨t, ts⟩
  · have hplace : w'.state.place = w.state.place := hpass.eq_of_nil
    simp [State.cursor, State.position, State.peek, hplace]
  · have hpos : 0 < ruler.extent (t :: ts) := Ruler.extent_pos_iff.2 (by simp)
    simp only [List.isEmpty_cons, Bool.not_false, Bool.or_true, Bool.true_eq_false, true_iff,
      false_iff]
    omega

/-- The negation of a literal that fails behind its first token succeeds there: the flag is on, and
    the cursor has moved. -/
theorem consumed_negate_partial_match :
    let p : Parser Char (fun _ => Empty) Unit Unit := negate "" (tokens ['a', 'b'])
    let ruler := Ruler.ofString (TextLayout.next {})
    let w : World Char Unit := ⟨State.initial Position.first ['a', 'c'], [], .empty⟩
    ∃ w', (p.eval ruler (calls ruler (fun _ => Empty.elim) 0) 0).run w =
        (.ok (.success () true), w') ∧ w.state.cursor < w'.state.cursor := by
  intro p ruler w
  have hrun : (p.eval ruler (calls ruler (fun _ => Empty.elim) 0) 0).run w =
      (.ok (.success () true), _) := rfl
  exact ⟨_, hrun, ((consumed_eval_calls_iff hrun).2 _ rfl).1.1 rfl⟩

end Parser

end CommittedChoice
