import CommittedChoice.Proofs.Compositional

set_option autoImplicit false

/-! # Faults in the log

A fault can be found at any depth, below choices, negations and speculations, which turn the failures
of their parts into something else. None of them does so with a fault. A loop that finds one logs it
and stops, and whatever is around the loop stops with it, so that nothing is logged behind it.

What a computation may log is said by `Run.Reported`: quiet events, and behind them, if it stops with
a fault, the entry of the loop at the position where it stops. It is enough to look at single steps
(`Run.stepwise_reports`). The main statement is `Parser.fault_iff_error_logged`. -/

namespace CommittedChoice

variable {τ ω α β : Type} {ρ : Type → Type}

/-! ## Events in the log -/

namespace Event

/-- The event is logged as an error. -/
def isError (event : Event ω) : Bool := event.entry?.any (·.level = .error)

/-- The event is logged by a whole parse that is over. -/
def isFinal (event : Event ω) : Bool := event.entry?.any (·.target = "parser::run")

/-- The event is neither an error nor the end of a whole parse. -/
def isQuiet (event : Event ω) : Bool := !event.isError && !event.isFinal

theorem isError_eq_false_of_isQuiet {event : Event ω} (h : event.isQuiet = true) :
    event.isError = false := by
  simp only [isQuiet, Bool.and_eq_true, Bool.not_eq_true'] at h
  exact h.1

theorem isQuiet_resolving (cell : Cell) : (resolving cell : Event ω).isQuiet = true := rfl

theorem isQuiet_of_isPassing {event : Event ω} (h : event.isPassing = true) :
    event.isQuiet = true := by
  cases event with
  | alternativesFailed => rfl
  | ended loop => cases loop <;> rfl
  | remark r => cases r <;> rfl
  | _ => cases h

end Event

/-! ## What is logged -/

/-- How a computation reports what it gives, when it ends at `position` and the newest event comes
    first. -/
inductive Run.Reported (position : Position) : Except Stop α → List (Event ω) → Prop where
  | quiet {r : Except Stop α} {events : List (Event ω)}
      (hr : ∀ error, r ≠ .error (.fault error)) (hevents : ∀ e ∈ events, e.isQuiet = true) :
      Reported position r events
  | fault (loop : Loop) (name : String) {events : List (Event ω)}
      (hevents : ∀ e ∈ events, e.isQuiet = true) :
      Reported position (.error (.fault (loop.fault name))) (.looped loop name position :: events)

namespace Run.Reported

variable {position : Position} {events earlier : List (Event ω)}

theorem ok (a : α) (hevents : ∀ e ∈ events, e.isQuiet = true) :
    Reported position (.ok a) events := .quiet nofun hevents

/-- Nothing but quiet events come before a value. -/
theorem isQuiet_of_ok {a : α} (h : Reported position (.ok a) events) :
    ∀ e ∈ events, e.isQuiet = true := by
  cases h with
  | quiet _ hevents => exact hevents

/-- Quiet events may come before. -/
theorem append {r : Except Stop α} (h : Reported position r events)
    (hearlier : ∀ e ∈ earlier, e.isQuiet = true) : Reported position r (events ++ earlier) := by
  have hall {later : List (Event ω)} (hlater : ∀ e ∈ later, e.isQuiet = true) :
      ∀ e ∈ later ++ earlier, e.isQuiet = true := fun e he =>
    (List.mem_append.1 he).elim (hlater e) (hearlier e)
  cases h with
  | quiet hr hevents => exact .quiet hr (hall hevents)
  | fault loop name hevents => exact .fault loop name (hall hevents)

/-- Whoever runs a computation that stops, stops in the same way. -/
theorem stop {reason : Stop} (h : Reported position (.error reason : Except Stop α) events) :
    Reported position (.error reason : Except Stop β) events := by
  cases h with
  | quiet hr hevents =>
      exact .quiet (fun error h => hr error (congrArg Except.error (Except.error.inj h))) hevents
  | fault loop name hevents => exact .fault loop name hevents

end Run.Reported

/-- Between one world and another, a computation reported what it gives, and nothing that was reported
    before is lost. -/
def Run.Reports (w : World τ ω) (r : Except Stop α) (v : World τ ω) : Prop :=
  ∃ events, v.events = events ++ w.events ∧ Reported v.state.position r events

theorem Run.stepwise_reports :
    Stepwise fun α (w : World τ ω) (r : Except Stop α) v => Reports w r v where
  refl a _ := ⟨[], rfl, .ok a nofun⟩
  trans := by
    rintro _ _ a r w v u ⟨events, hevents, hreported⟩ ⟨later, hlater, hend⟩
    refine ⟨later ++ events, ?_, hend.append hreported.isQuiet_of_ok⟩
    rw [hlater, hevents, List.append_assoc]
  stop := by
    rintro _ _ reason w v ⟨events, hevents, hreported⟩
    exact ⟨events, hevents, hreported.stop⟩
  halt _ hreason _ := ⟨[], rfl, .quiet (fun error h => hreason error (Except.error.inj h)) nofun⟩
  setState _ _ := ⟨[], rfl, .ok () nofun⟩
  popBookmark h := h
  emit {event} hpassing _ :=
    ⟨[event], rfl, .ok () (by simpa using Event.isQuiet_of_isPassing hpassing)⟩
  resolve {cell} _ _ _ :=
    ⟨[.resolving cell], rfl, .ok () (by simpa using Event.isQuiet_resolving cell)⟩

theorem Run.reports_loopFault (loop : Loop) (name : String) (w : World τ ω) :
    Reports w ((Run.loopFault loop name : Run τ ω α).run w).1
      ((Run.loopFault loop name : Run τ ω α).run w).2 :=
  ⟨[.looped loop name w.state.position], rfl, .fault loop name nofun⟩

/-! ## Whole parses -/

/-- What a whole parse leaves behind, of which the parser ended at `position`. -/
inductive Transcript.Logged (position : Position) : Transcript τ ω α → Prop where
  | ok (result : ParseResult τ α) {events : List (Event ω)} (last : Event ω) (cells : Cells)
      (hevents : ∀ e ∈ events, e.isQuiet = true) (hfinal : last.isFinal = true)
      (herror : last.isError = false) : Logged position ⟨.ok result, events ++ [last], cells⟩
  | fault (loop : Loop) (name : String) {events : List (Event ω)} (cells : Cells)
      (hevents : ∀ e ∈ events, e.isQuiet = true) :
      Logged position
        ⟨.error (.fault (loop.fault name)), events ++ [.looped loop name position], cells⟩
  | stop {reason : Stop} {events : List (Event ω)} (cells : Cells)
      (hreason : ∀ error, reason ≠ .fault error) (hevents : ∀ e ∈ events, e.isQuiet = true) :
      Logged position ⟨.error reason, events, cells⟩

namespace Transcript.Logged

variable {position : Position} {t : Transcript τ ω α}

/-- An error is logged if the parse ends with a fault, and only then. -/
theorem fault_iff (h : t.Logged position) :
    (∃ error, t.result = .error (.fault error)) ↔ ∃ e ∈ t.events, e.isError = true := by
  have hnone {events : List (Event ω)} (hevents : ∀ e ∈ events, e.isQuiet = true) :
      ¬ ∃ e ∈ events, e.isError = true := by
    rintro ⟨e, he, herror⟩
    rw [Event.isError_eq_false_of_isQuiet (hevents e he)] at herror
    cases herror
  cases h with
  | ok result last cells hevents hfinal herror =>
      simpa [or_imp, forall_and, herror] using hnone hevents
  | fault loop name cells hevents =>
      exact iff_of_true ⟨_, rfl⟩ ⟨.looped loop name position, by simp, rfl⟩
  | stop cells hreason hevents =>
      refine iff_of_false ?_ (hnone hevents)
      rintro ⟨error, herror⟩
      exact hreason error (Except.error.inj herror)

theorem of_fault (h : t.Logged position) {error : GrammarError}
    (hresult : t.result = .error (.fault error)) :
    ∃ loop name before, error = Loop.fault loop name ∧
      t.events = before ++ [.looped loop name position] ∧ ∀ e ∈ before, e.isQuiet = true := by
  cases h with
  | ok result last cells hevents hfinal herror => cases hresult
  | fault loop name cells hevents =>
      cases hresult
      exact ⟨loop, name, _, rfl, rfl, hevents⟩
  | stop cells hreason hevents => exact absurd (Except.error.inj hresult) (hreason error)

theorem of_ok (h : t.Logged position) {result : ParseResult τ α} (hresult : t.result = .ok result) :
    ∃ before last, t.events = before ++ [last] ∧ (∀ e ∈ before, e.isQuiet = true) ∧
      last.isFinal = true ∧ last.isError = false := by
  cases h with
  | ok result last cells hevents hfinal herror => exact ⟨_, last, rfl, hevents, hfinal, herror⟩
  | fault | stop => cases hresult

end Transcript.Logged

/-- The end of a whole parse is logged behind all else, unless the parser stopped. -/
theorem Run.logged_toResult {x : Run τ ω (Outcome α)} {s : State τ} {cells : Cells}
    {r : Except Stop (Outcome α)} {v : World τ ω} (hrun : x.run ⟨s, [], cells⟩ = (r, v))
    (hreports : Reports ⟨s, [], cells⟩ r v) :
    ∃ result u, x.toResult.run ⟨s, [], cells⟩ = (result, u) ∧
      Transcript.Logged v.state.position ⟨result, u.events.reverse, u.cells⟩ := by
  obtain ⟨events, hevents, hreported⟩ := hreports
  simp only [List.append_nil] at hevents
  subst hevents
  rcases r with reason | ⟨a, consumed⟩ | consumed
  · refine ⟨_, _, run_toResult_of_error hrun, ?_⟩
    -- a stop is passed on, and nothing is logged behind it
    generalize v.events = events at hreported
    cases hreported with
    | quiet hr hquiet =>
        refine .stop _ (fun error h => hr error (congrArg Except.error h)) ?_
        simpa using hquiet
    | fault loop name hquiet =>
        simp only [List.reverse_cons]
        exact .fault loop name _ (by simpa using hquiet)
  · refine ⟨_, _, run_toResult_of_success hrun, ?_⟩
    simp only [List.reverse_cons]
    exact .ok _ _ _ (by simpa using hreported.isQuiet_of_ok) rfl rfl
  · refine ⟨_, _, run_toResult_of_failure hrun, ?_⟩
    simp only [List.reverse_cons]
    exact .ok _ _ _ (by simpa using hreported.isQuiet_of_ok) rfl rfl

namespace Parser

theorem reports_eval_calls (ruler : Ruler τ) (rules : Rules τ ρ ω) (depth : Nat)
    (p : Parser τ ρ ω α) (copy : Nat) (w : World τ ω) :
    Run.Reports w ((p.eval ruler (calls ruler rules depth) copy).run w).1
      ((p.eval ruler (calls ruler rules depth) copy).run w).2 :=
  compositional_eval_calls (Run.stepwise_reports.compositional ruler)
    (.inr fun _ loop name => Run.reports_loopFault loop name) depth copy w

/-- **A fault ends the whole parse and is logged once.** A parse ends with a fault if and only if an
    error is in the log. Then the error is the last event, and before it there is neither another
    error nor the end of a whole parse. It is logged under the target of the loop that the fault
    names, with the text of the fault and the position at which the parser ended, so that nothing was
    read any more. A parse that ends with a result logs its end, once and behind all else. -/
theorem fault_iff_error_logged (input : Input τ) (grammar : Grammar τ ρ ω) (p : Parser τ ρ ω α)
    (cells : Cells) :
    let t := input.parse grammar p cells
    let x := p.parse input.ruler grammar.rules (grammar.depth input.tokens.length)
    let position := (x.run ⟨input.initialState, [], cells⟩).2.state.position
    ((∃ error, t.result = .error (.fault error)) ↔ ∃ e ∈ t.events, e.isError = true) ∧
    (∀ error, t.result = .error (.fault error) → ∃ before last loop name,
      t.events = before ++ [last] ∧ (∀ e ∈ before, e.isQuiet = true) ∧
      error = .reentry (Loop.name loop) name ∧
      last.entry? = some ⟨.error, loop.target,
        [("message", .text error.message), ("position", .text position.render)]⟩) ∧
    ∀ result, t.result = .ok result → ∃ before last,
      t.events = before ++ [last] ∧ (∀ e ∈ before, e.isQuiet = true) ∧
      last.isFinal = true ∧ last.isError = false := by
  intro t x position
  have hlogged : t.Logged position := by
    obtain ⟨result, u, hresult, hlogged⟩ :=
      Run.logged_toResult (Eq.refl (x.run ⟨input.initialState, [], cells⟩))
        (reports_eval_calls input.ruler grammar.rules _ p 0 _)
    have ht : t = ⟨result, u.events.reverse, u.cells⟩ := Input.parse_of_run hresult
    rw [ht]
    exact hlogged
  refine ⟨hlogged.fault_iff, fun error herror => ?_, fun result hresult => hlogged.of_ok hresult⟩
  obtain ⟨loop, name, before, rfl, hevents, hquiet⟩ := hlogged.of_fault herror
  exact ⟨before, .looped loop name position, loop, name, hevents, hquiet, rfl, rfl⟩

/-- A loop without progress in a speculation inside a negation, which is the second alternative of a
    choice. The fault gets past all of them, and what the first alternative logged comes before it. -/
theorem fault_iff_error_logged_speculation :
    let letter : Parser Char (fun _ => Empty) Unit Char := orElse (token 'x') (token 'y')
    let looping : Parser Char (fun _ => Empty) Unit Unit := skipMany1 "nothing" (value ())
    let p := orElse (map (fun _ => ()) letter) (negate "looping" (safe looping))
    let t := (Input.ofTokens ['a']).parse ⟨fun _ => Empty.elim, 0⟩ p .empty
    let error := Loop.chain.fault "nothing"
    t.result = .error (.fault error) ∧
    t.events = [.alternativesFailed 2 ⟨1, 1⟩, .looped .chain "nothing" ⟨1, 1⟩] ∧
    (∃ e ∈ t.events, e.isError = true) ∧
    ∃ before last, t.events = before ++ [last] ∧ (∀ e ∈ before, e.isQuiet = true) ∧
      ∃ target position, last.entry? = some ⟨.error, target,
        [("message", .text error.message), ("position", .text position)]⟩ := by
  intro letter looping p t error
  have hresult : t.result = .error (.fault error) := rfl
  obtain ⟨hiff, hfault, -⟩ :=
    fault_iff_error_logged (Input.ofTokens ['a']) ⟨fun _ => Empty.elim, 0⟩ p .empty
  obtain ⟨before, last, loop, name, hevents, hquiet, -, hentry⟩ := hfault error hresult
  exact ⟨hresult, rfl, hiff.1 ⟨error, hresult⟩, before, last, hevents, hquiet, _, _, hentry⟩

end Parser

end CommittedChoice
