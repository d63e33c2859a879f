set_option autoImplicit false

/-! # Source positions

A `Position` is a line and a column, compared line first. Both coordinates live in 64-bit words:
a step that would leave that range has no result, so every step is a partial function
(`Option Position`).

`TextLayout` says how one character of text moves a position. Tokens that are not characters move
it by one column (`Position.afterToken`). -/

namespace CommittedChoice

/-- A place in the source as shown to a reader, both coordinates counted from one. -/
structure Position where
  line : Nat
  column : Nat
deriving DecidableEq

namespace Position

/-- The position at which a text starts by default. -/
def first : Position := ⟨1, 1⟩

/-- The largest line or column: the 64th power of two less one. -/
def maxCoordinate : Nat := 18446744073709551615

/-- The sum of two coordinates, if it is a coordinate. -/
def add? (a b : Nat) : Option Nat :=
  if a + b ≤ maxCoordinate then some (a + b) else none

/-- The position `n` lines further down, in the same column. -/
def nextLine (p : Position) (n : Nat) : Option Position :=
  (add? p.line n).map fun line => { p with line }

/-- The position `n` columns further right, in the same line. -/
def nextColumn (p : Position) (n : Nat) : Option Position :=
  (add? p.column n).map fun column => { p with column }

/-- A token that is not a character fills one column. -/
def afterToken (p : Position) : Option Position := p.nextColumn 1

/-- The text of a position in reports and events. -/
def render (p : Position) : String :=
  "line " ++ p.line.repr ++ ", column " ++ p.column.repr

/-! ## Order: lines first, then columns -/

instance : Ord Position where
  compare p q := (compare p.line q.line).then (compare p.column q.column)

instance : LT Position where
  lt p q := p.line < q.line ∨ p.line = q.line ∧ p.column < q.column

instance (p q : Position) : Decidable (p < q) :=
  inferInstanceAs (Decidable (p.line < q.line ∨ p.line = q.line ∧ p.column < q.column))

theorem lt_iff {p q : Position} :
    p < q ↔ p.line < q.line ∨ p.line = q.line ∧ p.column < q.column := Iff.rfl

/-! ## The steps, where they have a result -/

theorem add?_eq_some_iff {a b c : Nat} : add? a b = some c ↔ c = a + b ∧ c ≤ maxCoordinate := by
  unfold add?
  split <;> simp <;> omega

theorem nextColumn_eq_some_iff {p q : Position} {n : Nat} :
    p.nextColumn n = some q ↔
      q = ⟨p.line, p.column + n⟩ ∧ p.column + n ≤ maxCoordinate := by
  simp only [nextColumn, Option.map_eq_some_iff, add?_eq_some_iff]
  constructor
  · rintro ⟨c, ⟨rfl, h⟩, rfl⟩
    exact ⟨rfl, h⟩
  · rintro ⟨rfl, h⟩
    exact ⟨p.column + n, ⟨rfl, h⟩, rfl⟩

theorem nextLine_eq_some_iff {p q : Position} {n : Nat} :
    p.nextLine n = some q ↔
      q = ⟨p.line + n, p.column⟩ ∧ p.line + n ≤ maxCoordinate := by
  simp only [nextLine, Option.map_eq_some_iff, add?_eq_some_iff]
  constructor
  · rintro ⟨c, ⟨rfl, h⟩, rfl⟩
    exact ⟨rfl, h⟩
  · rintro ⟨rfl, h⟩
    exact ⟨p.line + n, ⟨rfl, h⟩, rfl⟩

end Position

/-! ## Layout of text -/

/-- How characters move a position: the width of a tab, and whether a newline goes back to the
    first column or keeps the column. -/
structure TextLayout where
  tabWidth : Nat := 4
  resetColumn : Bool := false
  firstColumn : Nat := 1
deriving DecidableEq

/-- The position after a character: a newline goes one line down, a tab fills `tabWidth` columns
    and any other character one. -/
def TextLayout.next (layout : TextLayout) (c : Char) (p : Position) : Option Position :=
  if c = '\n' then
    if layout.resetColumn then
      (p.nextLine 1).map fun q => { q with column := layout.firstColumn }
    else p.nextLine 1
  else if c = '\t' then p.nextColumn layout.tabWidth
  else p.nextColumn 1

end CommittedChoice
