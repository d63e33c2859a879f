import CommittedChoice.Proofs.Compositional

set_option autoImplicit false

/-! # Grammars without faults

A fault is found only when a loop comes to a round that does not consume, so no number of parses shows
that a grammar has none. But the fault of a loop is the only one, and a loop whose body always
consumes does not raise it. So no parse of a productive grammar ends with a fault, whatever the input
and the state are (`Parser.not_fault_of_productive`). -/

namespace CommittedChoice

variable {τ ω α : Type} {ρ : Type → Type}

/-- The computation is never at fault. -/
def Run.NeverFaults (x : Run τ ω α) : Prop := ∀ w error, (x.run w).1 ≠ .error (.fault error)

theorem Run.stepwise_neverFaults :
    Stepwise fun _ (_ : World τ ω) r _ => ∀ error, r ≠ .error (.fault error) where
  refl _ _ := nofun
  trans _ hr := hr
  stop hr error h := hr error (congrArg Except.error (Except.error.inj h))
  halt _ hreason _ error h := hreason error (Except.error.inj h)
  setState _ _ := nofun
  popBookmark hr := hr
  emit _ _ := nofun
  resolve _ _ := nofun

namespace Parser

/-- **Productive grammars have no faults.** A parser that passes the test for consuming never succeeds
    without consuming. If the loops of all rules and of a parser are productive, then no parse ends
    with a fault, from whatever state it starts. -/
theorem not_fault_of_productive (ruler : Ruler τ) (rules : Rules τ ρ ω) (p : Parser τ ρ ω α)
    (depth copy : Nat) (w : World τ ω) :
    (p.isConsuming = true → ∀ v w',
      (p.eval ruler (calls ruler rules depth) copy).run w ≠ (.ok (.success v false), w')) ∧
    ((∀ (β : Type) (rule : ρ β), (rules β rule).Productive) → p.Productive → ∀ error w',
      (p.eval ruler (calls ruler rules depth) copy).run w ≠ (.error (.fault error), w')) := by
  constructor
  · intro hconsuming v w' hrun
    exact (alwaysConsumes_eval_calls ruler rules depth hconsuming copy).not_returns v ⟨w, w', hrun⟩
  · intro hrules hp error w' hrun
    have hnever : (p.eval ruler (calls ruler rules depth) copy).NeverFaults :=
      compositional_eval_calls (Run.stepwise_neverFaults.compositional ruler) (.inl ⟨hrules, hp⟩)
        depth copy
    exact hnever w error (congrArg Prod.fst hrun)

/-- The rule of an item, which is a number or a list of items. -/
inductive Items : Type → Type where
  | item : Items Nat

/-- An item counts its digits. The values of the list are references, which do not pass the test for
    consuming, but the separator does. -/
def Items.rules : Rules Char Items Unit
  | _, .item =>
      orElse (map List.length (many1 "digit" (candidate Char.isDigit)))
        (between (token '(')
          (map (List.foldl Nat.add 0) (separated "item" (recursive 0 .fresh .item) (token ',')))
          (token ')'))

theorem Items.productive (β : Type) (rule : Items β) : (Items.rules β rule).Productive := by
  cases rule
  rintro ⟨_ | _ | _, hi⟩
  · exact ⟨rfl, trivial⟩
  · exact ⟨trivial, ⟨.inr rfl, trivial, trivial⟩, trivial⟩
  · exact absurd hi (by simp)

/-- An item is productive and passes the test for consuming. So it is read without a fault and has
    consumed, here with a list inside a list. -/
theorem not_fault_of_productive_items :
    let ruler := Ruler.ofString (TextLayout.next {})
    let p := Items.rules Nat .item
    let w : World Char Unit :=
      ⟨State.initial Position.first ['(', '(', '1', ')', ',', '2', '3', ')'], [], .empty⟩
    p.isConsuming = true ∧ (∀ (β : Type) (rule : Items β), (Items.rules β rule).Productive) ∧
    ((p.eval ruler (calls ruler Items.rules 3) 0).run w).1 = .ok (.success 3 true) ∧
    ∀ depth, (∀ v w', (p.eval ruler (calls ruler Items.rules depth) 0).run w ≠
        (.ok (.success v false), w')) ∧
      ∀ error w', (p.eval ruler (calls ruler Items.rules depth) 0).run w ≠
        (.error (.fault error), w') := by
  intro ruler p w
  have hp : p.isConsuming = true := rfl
  refine ⟨hp, Items.productive, rfl, fun depth => ?_⟩
  obtain ⟨hconsumes, hnever⟩ := not_fault_of_productive ruler Items.rules p depth 0 w
  exact ⟨hconsumes hp, hnever Items.productive (Items.productive Nat .item)⟩

end Parser

end CommittedChoice
