set_option autoImplicit false

/-! # Outcomes

A parser that returns says whether it succeeded and whether it consumed input. The second answer is
what commits a choice: an alternative that consumed is final, whether it succeeded or not. -/

namespace CommittedChoice

/-- How a parser ended. -/
inductive Outcome (α : Type) where
  | success (value : α) (consumed : Bool)
  | failure (consumed : Bool)
deriving DecidableEq

namespace Outcome

variable {α β : Type}

/-- Whether input was consumed. -/
def consumed : Outcome α → Bool
  | success _ c => c
  | failure c => c

/-- Whether the parser succeeded. -/
def isSuccess : Outcome α → Bool
  | success _ _ => true
  | failure _ => false

/-- The outcome with its value changed. -/
def map (f : α → β) : Outcome α → Outcome β
  | success v c => success (f v) c
  | failure c => failure c

/-- The outcome seen from before an earlier step that consumed or not. -/
def after (earlier : Bool) : Outcome α → Outcome α
  | success v c => success v (c || earlier)
  | failure c => failure (c || earlier)

/-- Whether the outcome is final for a choice: a success, or a failure that consumed. -/
def isCommitted (o : Outcome α) : Bool := o.isSuccess || o.consumed

@[simp] theorem consumed_success (v : α) (c : Bool) : (success v c).consumed = c := rfl

@[simp] theorem consumed_failure (c : Bool) : (failure c : Outcome α).consumed = c := rfl

@[simp] theorem consumed_map (f : α → β) (o : Outcome α) : (o.map f).consumed = o.consumed := by
  cases o <;> rfl

@[simp] theorem isSuccess_map (f : α → β) (o : Outcome α) : (o.map f).isSuccess = o.isSuccess := by
  cases o <;> rfl

@[simp] theorem consumed_after (earlier : Bool) (o : Outcome α) :
    (o.after earlier).consumed = (o.consumed || earlier) := by
  cases o <;> rfl

@[simp] theorem isSuccess_after (earlier : Bool) (o : Outcome α) :
    (o.after earlier).isSuccess = o.isSuccess := by
  cases o <;> rfl

end Outcome

end CommittedChoice
