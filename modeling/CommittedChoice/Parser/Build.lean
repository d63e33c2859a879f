import CommittedChoice.Parser.Derived

set_option autoImplicit false

/-! # Building a grammar

References to rules carry an index that tells them apart. `Build` hands the indices out, so that no
two references of a grammar share one, and refuses parsers that lack a mandatory argument. -/

namespace CommittedChoice

/-- A part of a grammar under construction: given the next free index, the part and the index after
    it, or the reason why it cannot be built. -/
def Build (α : Type 1) : Type 1 := Nat → Except GrammarError (α × Nat)

namespace Build

variable {τ ω α : Type} {ρ : Type → Type}

instance : Monad Build where
  pure a := fun next => .ok (a, next)
  bind x f := fun next =>
    match x next with
    | .ok (a, next') => f a next'
    | .error e => .error e

/-- A part that needs no index. -/
def ofExcept {α : Type 1} : Except GrammarError α → Build α
  | .ok a => fun next => .ok (a, next)
  | .error e => fun _ => .error e

/-- A reference to a rule, with an index of its own. -/
def recursive (sharing : Sharing) (rule : ρ α) : Build (Parser τ ρ ω α) := fun next =>
  .ok (.recursive next sharing rule, next + 1)

end Build

end CommittedChoice
