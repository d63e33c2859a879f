import CommittedChoice.ParseError

set_option autoImplicit false

/-! # The state of a parse

The input is a list of tokens. A `Ruler` measures it: each token has a width in cursor units (the
bytes of a character in a string, or one for a token of a list) and moves the position. `tokenAt`
is the random access that such a measure gives.

A `Place` is a point between two tokens: what is still to be read, and how far in it lies. A `State`
is a place, the bookmarks to which the parse may go back, and the last error. The tokens that are
still to be read are those that the cursor gives access to: a state that looks them up instead is in
step with this one (`CommittedChoice.Proofs.CursorState`). -/

namespace CommittedChoice

variable {τ : Type}

/-! ## Measuring the input -/

/-- How tokens are measured. Every token has a width, and a step of the position has no result if a
    coordinate would leave its range. -/
structure Ruler (τ : Type) where
  width : τ → Nat
  next : τ → Position → Option Position
  width_pos : ∀ t, 0 < width t

/-- The token that starts at a cursor, with its width. A cursor inside a token or behind the last
    one has none. -/
def tokenAt (width : τ → Nat) : List τ → Nat → Option (τ × Nat)
  | [], _ => none
  | t :: ts, cursor =>
      if cursor = 0 then some (t, width t)
      else if cursor < width t then none
      else tokenAt width ts (cursor - width t)

namespace Ruler

/-- Tokens of a list: each is one unit wide. -/
def ofTokens (next : τ → Position → Option Position) : Ruler τ :=
  ⟨fun _ => 1, next, fun _ => Nat.one_pos⟩

/-- Characters of a string: each is as wide as its UTF-8 encoding. -/
def ofString (next : Char → Position → Option Position) : Ruler Char :=
  ⟨Char.utf8Size, next, Char.utf8Size_pos⟩

/-- The cursor behind a run of tokens that starts at zero. -/
def extent (ruler : Ruler τ) : List τ → Nat
  | [] => 0
  | t :: ts => ruler.width t + extent ruler ts

/-- The position behind a run of tokens. -/
def positionAfter (ruler : Ruler τ) (start : Position) (ts : List τ) : Option Position :=
  ts.foldlM (fun p t => ruler.next t p) start

end Ruler

/-! ## Places -/

/-- A point between two tokens of the input. -/
structure Place (τ : Type) where
  cursor : Nat
  position : Position
  rest : List τ

namespace Place

/-- The start of an input. -/
def start (position : Position) (tokens : List τ) : Place τ := ⟨0, position, tokens⟩

/-- The next token. -/
def peek (place : Place τ) : Option τ := place.rest.head?

/-- The place behind the next token, which is the place itself at the end of the input. -/
def next? (ruler : Ruler τ) (place : Place τ) : Option (Place τ) :=
  match place.rest with
  | [] => some place
  | t :: rest =>
      (ruler.next t place.position).map fun position =>
        ⟨place.cursor + ruler.width t, position, rest⟩

end Place

/-! ## States -/

/-- A parse under way. The innermost bookmark comes first. -/
structure State (τ : Type) where
  place : Place τ
  bookmarks : List (Place τ)
  error : ParseError τ

namespace State

/-- The state before anything was read. -/
def initial (position : Position) (tokens : List τ) : State τ :=
  ⟨Place.start position tokens, [], ParseError.unknown⟩

/-- How far into the input the state is. -/
def cursor (s : State τ) : Nat := s.place.cursor

/-- The position of the next token. -/
def position (s : State τ) : Position := s.place.position

/-- The next token. -/
def peek (s : State τ) : Option τ := s.place.peek

/-- Whether the whole input has been read. -/
def isAtEnd (s : State τ) : Bool := s.place.rest.isEmpty

/-- Reads one token, if there is one and the position can follow. -/
def advance? (ruler : Ruler τ) (s : State τ) : Option (State τ) :=
  (s.place.next? ruler).map fun place => { s with place }

/-- Remembers the current place. -/
def pushBookmark (s : State τ) : State τ := { s with bookmarks := s.place :: s.bookmarks }

/-- Forgets the innermost bookmark, if there is one. -/
def popBookmark (s : State τ) : State τ := { s with bookmarks := s.bookmarks.tail }

/-- Goes back to the innermost bookmark and forgets it; without bookmarks nothing happens. -/
def rewind (s : State τ) : State τ :=
  match s.bookmarks with
  | [] => s
  | place :: bookmarks => { s with place, bookmarks }

/-- The number of bookmarks. -/
def depth (s : State τ) : Nat := s.bookmarks.length

/-! ## Bookmarks -/

@[simp] theorem popBookmark_pushBookmark (s : State τ) : s.pushBookmark.popBookmark = s := rfl

@[simp] theorem rewind_pushBookmark (s : State τ) : s.pushBookmark.rewind = s := rfl

theorem rewind_of_cons {s : State τ} {place : Place τ} {bookmarks : List (Place τ)}
    (h : s.bookmarks = place :: bookmarks) : s.rewind = { s with place, bookmarks } := by
  simp [rewind, h]

@[simp] theorem bookmarks_rewind (s : State τ) : s.rewind.bookmarks = s.bookmarks.tail := by
  unfold rewind
  split <;> simp_all

@[simp] theorem error_rewind (s : State τ) : s.rewind.error = s.error := by
  unfold rewind
  split <;> rfl

/-! ## Recording a failure -/

/-- The message of a failure at the end of the input. -/
def endMessage : String :=
  "Expected the state to have more content but reached the end of the state."

/-- The message of a failure at a token that does not fit. -/
def tokenMessage : String := "Token did not match expected predicate or token list."

/-- Records a failure at the current position. -/
def fail (s : State τ) (expected : List (Expected τ)) (unexpected : Option τ) (message : String)
    (atEnd : Bool) : State τ :=
  { s with error := ⟨⟨unexpected, s.position, atEnd⟩, expected, message⟩ }

/-- Records that the input ended too early. -/
def failAtEnd (s : State τ) (expected : List (Expected τ)) : State τ :=
  s.fail expected none endMessage true

/-- Records that a token does not fit. -/
def failAtToken (s : State τ) (expected : List (Expected τ)) (t : τ) : State τ :=
  s.fail expected (some t) tokenMessage false

/-- Keeps the last error but for its expectations. -/
def forward (s : State τ) (expected : List (Expected τ)) : State τ :=
  { s with error := s.error.withExpected expected }

end State

end CommittedChoice
