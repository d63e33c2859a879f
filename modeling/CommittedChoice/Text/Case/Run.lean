set_option autoImplicit false

/-! # Case mappings

A full case mapping sends a character to one or more characters. Most characters that change are
moved by a fixed distance within a run of code points (`CaseRun`); the few that become several
characters are listed one by one. All others stay as they are. -/

namespace CommittedChoice.Text

/-- Every `step`-th code point from `first` to `last` moves by `shift`. -/
structure CaseRun where
  first : Nat
  last : Nat
  step : Nat
  shift : Int
deriving DecidableEq

/-- Where a run moves a code point, if it does. -/
def CaseRun.target? (run : CaseRun) (n : Nat) : Option Nat :=
  if run.first ≤ n ∧ n ≤ run.last ∧ (n - run.first) % run.step = 0 then
    some (n + run.shift).toNat
  else none

/-- A mapping of single characters. -/
structure CaseMapping where
  runs : List CaseRun
  expansions : List (Nat × List Nat)
deriving DecidableEq

/-- The characters that a character becomes. -/
def CaseMapping.apply (mapping : CaseMapping) (c : Char) : List Char :=
  match mapping.expansions.lookup c.toNat with
  | some ns => ns.map Char.ofNat
  | none =>
      match mapping.runs.findSome? (·.target? c.toNat) with
      | some n => [Char.ofNat n]
      | none => [c]

end CommittedChoice.Text
