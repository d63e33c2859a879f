import CommittedChoice.Proofs.Reachable

set_option autoImplicit false

/-! # States that look their tokens up

A `State` carries the tokens that are left, at its place and at each bookmark. A state can do
without them if it has access to the input: a `CursorState` holds a cursor, the position that belongs
to it and the token that it found at the cursor, and its bookmarks are pairs of a cursor and a
position. Whenever the cursor has moved, the token is looked up again (`CursorState.load`).

`State.toCursorState` forgets the tokens that are left. Nothing is lost with them: as long as the
places of a state lie in the input, every operation does the same before and after
(`State.perform_toCursorState`). So the two kinds of states stay in step through any row of
operations, and they show the same token at every moment (`State.Reachable.inStep`). -/

namespace CommittedChoice

variable {τ : Type}

/-! ## States with a cursor -/

/-- A cursor and the position that belongs to it. -/
structure Bookmark where
  cursor : Nat
  position : Position

/-- A parse under way with access to its input. `current` is the token at the cursor with its width,
    and the innermost bookmark comes first. -/
structure CursorState (τ : Type) where
  cursor : Nat
  current : Option (τ × Nat)
  position : Position
  bookmarks : List Bookmark
  error : ParseError τ

namespace CursorState

/-- Looks up the token at the cursor. -/
def load (input : Input τ) (c : CursorState τ) : CursorState τ :=
  { c with current := tokenAt input.ruler.width input.tokens c.cursor }

/-- The state before anything was read. -/
def initial (input : Input τ) : CursorState τ :=
  ⟨0, tokenAt input.ruler.width input.tokens 0, input.start, [], .unknown⟩

/-- The token at the cursor. -/
def peek (c : CursorState τ) : Option τ := c.current.map Prod.fst

/-- Whether there is no token at the cursor. -/
def isAtEnd (c : CursorState τ) : Bool := c.current.isNone

/-- Moves behind the current token, if there is one and the position can follow, and looks up the
    next. -/
def advance? (input : Input τ) (c : CursorState τ) : Option (CursorState τ) :=
  match c.current with
  | none => some (c.load input)
  | some (t, width) =>
      (input.ruler.next t c.position).map fun position =>
        load input { c with cursor := c.cursor + width, position }

/-- Remembers the cursor and the position. -/
def pushBookmark (c : CursorState τ) : CursorState τ :=
  { c with bookmarks := ⟨c.cursor, c.position⟩ :: c.bookmarks }

/-- Forgets the innermost bookmark, if there is one. -/
def popBookmark (c : CursorState τ) : CursorState τ := { c with bookmarks := c.bookmarks.tail }

/-- Goes back to the innermost bookmark, forgets it and looks up the token there; without bookmarks
    nothing happens. -/
def rewind (input : Input τ) (c : CursorState τ) : CursorState τ :=
  match c.bookmarks with
  | [] => c
  | ⟨cursor, position⟩ :: bookmarks => load input { c with cursor, position, bookmarks }

/-- Records a failure at the current position. -/
def fail (c : CursorState τ) (expected : List (Expected τ)) (unexpected : Option τ)
    (message : String) (atEnd : Bool) : CursorState τ :=
  { c with error := ⟨⟨unexpected, c.position, atEnd⟩, expected, message⟩ }

/-- Keeps the last error but for its expectations. -/
def forward (c : CursorState τ) (expected : List (Expected τ)) : CursorState τ :=
  { c with error := c.error.withExpected expected }

end CursorState

/-! ## Operations -/

/-- What can be done to a state. A failure at the end of the input or at a token is a failure with a
    message of its own. -/
inductive Operation (τ : Type) where
  | advance
  | pushBookmark
  | popBookmark
  | rewind
  | fail (expected : List (Expected τ)) (unexpected : Option τ) (message : String) (atEnd : Bool)
  | forward (expected : List (Expected τ))
  | setError (error : ParseError τ)

/-- The state after an operation, unless a coordinate of the position leaves its range. -/
def State.perform (ruler : Ruler τ) (s : State τ) : Operation τ → Option (State τ)
  | .advance => s.advance? ruler
  | .pushBookmark => some s.pushBookmark
  | .popBookmark => some s.popBookmark
  | .rewind => some s.rewind
  | .fail expected unexpected message atEnd => some (s.fail expected unexpected message atEnd)
  | .forward expected => some (s.forward expected)
  | .setError error => some { s with error }

/-- The same operations on a state with a cursor. -/
def CursorState.perform (input : Input τ) (c : CursorState τ) :
    Operation τ → Option (CursorState τ)
  | .advance => c.advance? input
  | .pushBookmark => some c.pushBookmark
  | .popBookmark => some c.popBookmark
  | .rewind => some (c.rewind input)
  | .fail expected unexpected message atEnd => some (c.fail expected unexpected message atEnd)
  | .forward expected => some (c.forward expected)
  | .setError error => some { c with error }

/-! ## Forgetting the tokens that are left -/

/-- The cursor and the position of a place. -/
def Place.toBookmark (q : Place τ) : Bookmark := ⟨q.cursor, q.position⟩

namespace State

/-- The state without the tokens that are left, but with access to the input. -/
def toCursorState (input : Input τ) (s : State τ) : CursorState τ :=
  ⟨s.cursor, tokenAt input.ruler.width input.tokens s.cursor, s.position,
    s.bookmarks.map Place.toBookmark, s.error⟩

variable {input : Input τ} {s s' : State τ}

theorem current_toCursorState (hs : s.LiesIn input) :
    (s.toCursorState input).current = s.peek.map fun t => (t, input.ruler.width t) :=
  hs.place.tokenAt_eq

theorem peek_toCursorState (hs : s.LiesIn input) : (s.toCursorState input).peek = s.peek := by
  simp [CursorState.peek, current_toCursorState hs, Function.comp_def]

theorem isAtEnd_toCursorState (hs : s.LiesIn input) :
    (s.toCursorState input).isAtEnd = s.isAtEnd := by
  rw [CursorState.isAtEnd, current_toCursorState hs, Option.isNone_map]
  simp only [State.peek, Place.peek, State.isAtEnd]
  cases s.place.rest <;> rfl

theorem advance?_toCursorState (hs : s.LiesIn input) :
    (s.toCursorState input).advance? input =
      (s.advance? input.ruler).map (toCursorState input) := by
  have hcurrent := current_toCursorState hs
  unfold CursorState.advance?
  rcases hrest : s.place.rest with _ | ⟨t, rest⟩
  · simp only [State.peek, Place.peek, hrest, List.head?_nil, Option.map_none] at hcurrent
    have hstay : s.advance? input.ruler = some s := by
      simp [State.advance?, Place.next?, hrest]
    rw [hcurrent, hstay]
    rfl
  · simp only [State.peek, Place.peek, hrest, List.head?_cons, Option.map_some] at hcurrent
    -- the width that was looked up is the one by which the place moves
    have hmove : s.advance? input.ruler = (input.ruler.next t s.position).map fun position =>
        { s with place := ⟨s.cursor + input.ruler.width t, position, rest⟩ } := by
      simp [State.advance?, Place.next?, hrest, State.position, State.cursor, Function.comp_def]
    rw [hcurrent, hmove, Option.map_map]
    rfl

theorem rewind_toCursorState :
    (s.toCursorState input).rewind input = s.rewind.toCursorState input := by
  rcases hstack : s.bookmarks with _ | ⟨q, bookmarks⟩
  · have hstay : s.rewind = s := by simp only [State.rewind, hstack]
    simp only [CursorState.rewind, toCursorState, hstack, hstay, List.map_nil]
  · rw [State.rewind_of_cons hstack]
    simp only [CursorState.rewind, toCursorState, hstack, List.map_cons]
    rfl

theorem popBookmark_toCursorState :
    (s.toCursorState input).popBookmark = s.popBookmark.toCursorState input := by
  simp only [CursorState.popBookmark, toCursorState, State.popBookmark, List.map_tail]
  rfl

/-- **One operation.** It does the same to a state and to what is left of the state without its
    tokens. -/
theorem perform_toCursorState (hs : s.LiesIn input) (operation : Operation τ) :
    (s.toCursorState input).perform input operation =
      (s.perform input.ruler operation).map (toCursorState input) := by
  cases operation with
  | advance => exact advance?_toCursorState hs
  | popBookmark => exact congrArg some popBookmark_toCursorState
  | rewind => exact congrArg some rewind_toCursorState
  | pushBookmark | fail | forward | setError => rfl

theorem LiesIn.perform (hs : s.LiesIn input) {operation : Operation τ}
    (h : s.perform input.ruler operation = some s') : s'.LiesIn input := by
  cases operation with
  | advance => exact hs.advance h
  | pushBookmark =>
      cases h
      exact hs.pushBookmark
  | popBookmark =>
      cases h
      exact hs.popBookmark
  | rewind =>
      cases h
      exact hs.rewind
  | fail | forward | setError =>
      cases h
      exact hs.congr rfl rfl

/-- **A row of operations.** -/
theorem performAll_toCursorState (hs : s.LiesIn input) (operations : List (Operation τ)) :
    operations.foldlM (CursorState.perform input) (s.toCursorState input) =
      (operations.foldlM (State.perform input.ruler) s).map (toCursorState input) := by
  induction operations generalizing s with
  | nil => rfl
  | cons operation operations ih =>
      rw [List.foldlM_cons, List.foldlM_cons, perform_toCursorState hs]
      rcases hstep : s.perform input.ruler operation with _ | s'
      · rfl
      · exact ih (hs.perform hstep)

/-- **States that look their tokens up are in step with states that carry them.** Both start alike.
    From every reachable state, be it reached by operations or by parses, both show the same cursor,
    position, token, end of the input, number of bookmarks and error, and the token is the one at the
    cursor. Every row of operations leads both to states that are in step again, or stops both. -/
theorem Reachable.inStep :
    (∀ input : Input τ, input.initialState.toCursorState input = CursorState.initial input) ∧
    ∀ {input : Input τ} {s : State τ}, Reachable input s →
      let c := s.toCursorState input
      (c.cursor = s.cursor ∧ c.position = s.position ∧ c.peek = s.peek ∧ c.isAtEnd = s.isAtEnd ∧
        c.bookmarks.length = s.depth ∧ c.error = s.error ∧ c.load input = c) ∧
      ∀ operations : List (Operation τ),
        operations.foldlM (CursorState.perform input) c =
          (operations.foldlM (State.perform input.ruler) s).map (toCursorState input) := by
  refine ⟨fun input => rfl, fun {input s} hs => ?_⟩
  have hlies := hs.liesIn
  refine ⟨⟨rfl, rfl, peek_toCursorState hlies, isAtEnd_toCursorState hlies, ?_, rfl, rfl⟩,
    performAll_toCursorState hlies⟩
  simp [toCursorState, State.depth]

end State

end CommittedChoice
