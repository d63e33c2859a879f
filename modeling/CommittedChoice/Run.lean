import CommittedChoice.Cells
import CommittedChoice.Event
import CommittedChoice.Outcome
import CommittedChoice.State

set_option autoImplicit false

/-! # Computations of a parse

A `Run` changes the `World` of a parse: the state, the events so far, and which recursive parsers
are resolved to which copy of their rule. It ends with a value or stops for good. The world is kept
also when a run stops, so that what happened before can still be seen.

The second half of the file has the steps of which all parsers are made. -/

namespace CommittedChoice

/-! ## The world and the monad -/

/-- Everything that a parse can change. The newest event comes first. -/
structure World (τ ω : Type) where
  state : State τ
  events : List (Event ω)
  cells : Cells

/-- Why a parse stopped without an outcome. -/
inductive Stop where
  /-- The grammar is at fault. -/
  | fault (error : GrammarError)
  /-- A coordinate of the position left its range. -/
  | overflow
  /-- The bound on the depth of recursion was reached. -/
  | unfinished
deriving DecidableEq

/-- The text of a stop. -/
def Stop.message : Stop → String
  | fault error => error.message
  | overflow => "attempt to add with overflow"
  | unfinished => "references to rules are nested too deep"

/-- A computation that changes the world and ends with a value or stops. -/
@[ext]
structure Run (τ ω α : Type) where
  run : World τ ω → Except Stop α × World τ ω

namespace Run

variable {τ ω α β : Type}

/-- Ends at once with a value. -/
protected def pure (a : α) : Run τ ω α := ⟨fun w => (.ok a, w)⟩

/-- Goes on with the value of a computation unless that stopped. -/
protected def bind (x : Run τ ω α) (f : α → Run τ ω β) : Run τ ω β :=
  ⟨fun w => match x.run w with
    | (.ok a, w') => (f a).run w'
    | (.error stop, w') => (.error stop, w')⟩

/-- A computation that is looked for only when it is run. -/
@[inline] def delay (x : Unit → Run τ ω α) : Run τ ω α := ⟨fun w => (x ()).run w⟩

@[simp] theorem delay_eq (x : Unit → Run τ ω α) : delay x = x () := rfl

instance : Monad (Run τ ω) where
  pure := Run.pure
  bind := Run.bind

@[simp] theorem run_pure (a : α) (w : World τ ω) : (pure a : Run τ ω α).run w = (.ok a, w) := rfl

theorem run_bind (x : Run τ ω α) (f : α → Run τ ω β) (w : World τ ω) :
    (x >>= f).run w = match x.run w with
      | (.ok a, w') => (f a).run w'
      | (.error stop, w') => (.error stop, w') := rfl

theorem run_bind_of_ok {x : Run τ ω α} {f : α → Run τ ω β} {w w' : World τ ω} {a : α}
    (h : x.run w = (.ok a, w')) : (x >>= f).run w = (f a).run w' := by
  rw [run_bind, h]

theorem run_bind_of_error {x : Run τ ω α} {f : α → Run τ ω β} {w w' : World τ ω} {stop : Stop}
    (h : x.run w = (.error stop, w')) : (x >>= f).run w = (.error stop, w') := by
  rw [run_bind, h]

theorem run_bind_eq_ok_iff {x : Run τ ω α} {f : α → Run τ ω β} {w w' : World τ ω} {b : β} :
    (x >>= f).run w = (.ok b, w') ↔
      ∃ a w₁, x.run w = (.ok a, w₁) ∧ (f a).run w₁ = (.ok b, w') := by
  constructor
  · intro h
    rcases hx : x.run w with ⟨_ | a, w₁⟩
    · rw [run_bind_of_error hx] at h
      cases h
    · rw [run_bind_of_ok hx] at h
      exact ⟨a, w₁, rfl, h⟩
  · rintro ⟨a, w₁, hx, h⟩
    rw [run_bind_of_ok hx, h]

instance : LawfulMonad (Run τ ω) :=
  LawfulMonad.mk' (Run τ ω)
    (fun x => by
      ext w : 2
      show (x >>= pure).run w = x.run w
      rw [run_bind]
      rcases x.run w with ⟨_ | _, _⟩ <;> rfl)
    (fun _ _ => rfl)
    (fun x f g => by
      ext w : 2
      simp only [run_bind]
      rcases x.run w with ⟨_ | _, _⟩ <;> rfl)

/-! ## Looking and moving -/

/-- Stops for good. -/
def stop (reason : Stop) : Run τ ω α := ⟨fun w => (.error reason, w)⟩

/-- The state. -/
def getState : Run τ ω (State τ) := ⟨fun w => (.ok w.state, w)⟩

/-- Changes the state. -/
def modifyState (f : State τ → State τ) : Run τ ω Unit :=
  ⟨fun w => (.ok (), { w with state := f w.state })⟩

/-- Reports an event. -/
def emit (event : Event ω) : Run τ ω Unit :=
  ⟨fun w => (.ok (), { w with events := event :: w.events })⟩

/-- Reads one token. -/
def advance (ruler : Ruler τ) : Run τ ω Unit :=
  ⟨fun w => match w.state.advance? ruler with
    | some state => (.ok (), { w with state })
    | none => (.error .overflow, w)⟩

@[simp] theorem run_stop (reason : Stop) (w : World τ ω) :
    (stop reason : Run τ ω α).run w = (.error reason, w) := rfl

@[simp] theorem run_getState (w : World τ ω) : (getState : Run τ ω _).run w = (.ok w.state, w) :=
  rfl

@[simp] theorem run_modifyState (f : State τ → State τ) (w : World τ ω) :
    (modifyState f).run w = (.ok (), { w with state := f w.state }) := rfl

@[simp] theorem run_emit (event : Event ω) (w : World τ ω) :
    (emit event).run w = (.ok (), { w with events := event :: w.events }) := rfl

theorem run_advance_of_some {ruler : Ruler τ} {w : World τ ω} {q : Place τ}
    (h : w.state.place.next? ruler = some q) :
    (advance ruler).run w = (.ok (), { w with state := { w.state with place := q } }) := by
  simp only [advance, State.advance?, h, Option.map_some]

theorem run_advance_of_none {ruler : Ruler τ} {w : World τ ω}
    (h : w.state.place.next? ruler = none) : (advance ruler).run w = (.error .overflow, w) := by
  simp only [advance, State.advance?, h, Option.map_none]

/-! ## Failing -/

/-- Fails at the current position. -/
def fail (expected : List (Expected τ)) (unexpected : Option τ) (message : String)
    (consumed atEnd : Bool) : Run τ ω (Outcome α) := do
  modifyState (·.fail expected unexpected message atEnd)
  return .failure consumed

/-- Fails because the input ended. -/
def failAtEnd (expected : List (Expected τ)) (consumed : Bool) : Run τ ω (Outcome α) := do
  modifyState (·.failAtEnd expected)
  return .failure consumed

/-- Fails at a token that does not fit. -/
def failAtToken (expected : List (Expected τ)) (t : τ) (consumed : Bool) :
    Run τ ω (Outcome α) := do
  modifyState (·.failAtToken expected t)
  return .failure consumed

/-- Fails with the last error but for its expectations. -/
def forward (expected : List (Expected τ)) (consumed : Bool) : Run τ ω (Outcome α) := do
  modifyState (·.forward expected)
  return .failure consumed

/-- Reports and raises the fault of a loop. -/
def loopFault (loop : Loop) (parser : String) : Run τ ω α := do
  let state ← getState
  emit (.looped loop parser state.position)
  stop (.fault (loop.fault parser))

/-! ## Speculation -/

/-- Runs a parser with a bookmark at the current place and goes on by its outcome. The bookmark is
    there when `finish` starts; if the parser stops, it is removed. -/
def speculate (x : Run τ ω (Outcome α)) (finish : Outcome α → Run τ ω (Outcome β)) :
    Run τ ω (Outcome β) :=
  ⟨fun w => match x.run { w with state := w.state.pushBookmark } with
    | (.ok outcome, w') => (finish outcome).run w'
    | (.error reason, w') => (.error reason, { w' with state := w'.state.popBookmark })⟩

/-! ## Resolving -/

/-- The copy that a recursive parser enters, resolved now if it was not before. -/
def resolve (cell : Cell) (sharing : Sharing) : Run τ ω Nat :=
  ⟨fun w => match w.cells.target? cell with
    | some copy => (.ok copy, w)
    | none =>
        let (cells, copy) := w.cells.resolve cell sharing
        (.ok copy, { w with cells, events := .resolving cell :: w.events })⟩

end Run

end CommittedChoice
