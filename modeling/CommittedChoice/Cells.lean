set_option autoImplicit false

/-! # Resolved recursive parsers

A recursive parser refers to a rule and is resolved when it is first run: it then enters either the
copy of the rule that all shared references enter, or a copy of its own. A copy brings recursive
parsers of its own, so a recursive parser is known by the copy in which it stands and its index
there (`Cell`). `Cells` records which ones are resolved; once resolved, a cell keeps its copy. -/

namespace CommittedChoice

/-- A recursive parser: its index among those of the copy in which it stands. -/
structure Cell where
  copy : Nat
  index : Nat
deriving DecidableEq

/-- The recursive parsers resolved so far, each with the copy of its rule that it enters, the last
    one first. Copy zero is the one that all shared references enter; `copies` more have been
    made. -/
structure Cells where
  resolved : List (Cell × Nat)
  copies : Nat

/-- A reference to a rule either enters the copy that all such references share, or a copy of its
    own. -/
inductive Sharing where
  | shared
  | fresh
deriving DecidableEq

namespace Cells

/-- Nothing is resolved. -/
def empty : Cells := ⟨[], 0⟩

/-- The copy that a resolved recursive parser enters. -/
def target? (cells : Cells) (cell : Cell) : Option Nat := cells.resolved.lookup cell

/-- Whether a recursive parser is resolved. -/
def isResolved (cells : Cells) (cell : Cell) : Bool := (cells.target? cell).isSome

/-- Resolves a recursive parser, making a copy of the rule unless it is shared. -/
def resolve (cells : Cells) (cell : Cell) : Sharing → Cells × Nat
  | .shared => ({ cells with resolved := (cell, 0) :: cells.resolved }, 0)
  | .fresh =>
      let copy := cells.copies + 1
      (⟨(cell, copy) :: cells.resolved, copy⟩, copy)

/-- Lets `target` be a duplicate of `source`: it is resolved if `source` is, and to the same
    copy. -/
def duplicate (cells : Cells) (source target : Cell) : Cells :=
  match cells.target? source with
  | some copy => { cells with resolved := (target, copy) :: cells.resolved }
  | none => cells

end Cells

end CommittedChoice
