set_option autoImplicit false

/-! # Ranges of code points

Properties of characters are given by tables of code point ranges, both ends included. -/

namespace CommittedChoice.Text

/-- Whether a character lies in one of the ranges. -/
def inRanges (ranges : List (Nat × Nat)) (c : Char) : Bool :=
  ranges.any fun r => r.1 ≤ c.toNat && c.toNat ≤ r.2

end CommittedChoice.Text
