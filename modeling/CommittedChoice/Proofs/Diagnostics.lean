import CommittedChoice.Proofs.Noninterference
import CommittedChoice.Proofs.Termination

set_option autoImplicit false

/-! # Diagnostics do not steer the parse

A grammar is decorated to make its reports readable: parts get labels or other expectations, values
are traced and tapped. A label is copied into the expectations around it, written into every error
that passes it, and kept in the same record as the position by which a choice compares errors. Still
no decision depends on it, because a choice looks at the causes of errors alone. Two grammars that
differ in their decoration read the same, and where they fail, they fail for the same cause. The main
statement is `Parser.exists_run_of_alike`. -/

namespace CommittedChoice

variable {τ ω α : Type} {ρ : Type → Type}

/-- Two parses at the same place need nothing else in common, so that nothing is compared in which
    grammars may differ. -/
theorem Coupling.respects_byPlace (ruler : Ruler τ) (like : Likeness) :
    (byPlace ω ruler).Respects like :=
  ⟨False.elim, nofun, nofun⟩

theorem Coupling.joinsAlike_byPlace {ruler : Ruler τ} (like : Likeness) {w w' : World τ ω}
    (h : w.state = w'.state) : (byPlace ω ruler).JoinsAlike like True w w' := by
  have hjoins : (byPlace ω ruler).Joins False w w' := joins_byPlace (congrArg State.place h)
  exact ⟨hjoins.place, hjoins.events, hjoins.cells, fun _ => h ▸ .refl like _⟩

namespace Parser

/-- **Diagnostics do not steer the parse.** Let two parsers over two sets of rules be alike: whatever
    `like` leaves open, be it that wrappers which only report are put in or left out anywhere, that
    loops call their bodies by other names, or that negations have other messages, the two parsers
    give the same answer from the same state, up to the name of the body of a loop in a fault. They
    end at the same cursor and position, and the errors in the end have the same cause. If negations
    have the same messages, then the errors have the same message. -/
theorem exists_run_of_alike {like : Likeness} {rules rules' : Rules τ ρ ω}
    (hrules : ∀ (β : Type) (rule : ρ β), (rules β rule).Alike like (rules' β rule))
    {p p' : Parser τ ρ ω α} (hp : p.Alike like p') (ruler : Ruler τ) (depth copy copy' : Nat)
    {w w' : World τ ω} (hstate : w.state = w'.state) :
    ∃ r r' v v', (p.eval ruler (calls ruler rules depth) copy).run w = (r, v) ∧
      (p'.eval ruler (calls ruler rules' depth) copy').run w' = (r', v') ∧
      like.Answers r r' ∧ v.state.cursor = v'.state.cursor ∧
      v.state.position = v'.state.position ∧ v.state.error.cause = v'.state.error.cause ∧
      (like.messages → v.state.error.message = v'.state.error.message) := by
  have hrelates : (p.eval ruler (calls ruler rules depth) copy).Relates
      (Coupling.byPlace ω ruler) like True (p'.eval ruler (calls ruler rules' depth) copy') :=
    relates_eval_calls (Coupling.respects_byPlace ruler like) hrules depth hp False.elim True
  obtain ⟨r, r', v, v', hrun, hrun', hr, hjoins⟩ :=
    hrelates (Coupling.joinsAlike_byPlace like hstate)
  have hplace : v.state.place = v'.state.place := hjoins.place
  have herror := hjoins.error (.inl trivial)
  exact ⟨r, r', v, v', hrun, hrun', hr, congrArg Place.cursor hplace,
    congrArg Place.position hplace, herror.cause, herror.message⟩

/-- The rules of nested parentheses with a label on the whole, a tap on a pair of parentheses, a trace
    on what is between them and a map that changes nothing. -/
def Nesting.decorated : Rules Char Nesting Unit
  | _, .depth =>
      labelled "nesting" (orElse
        (tap (fun _ => ())
          (map3 (fun _ n _ => n + 1) (map id (token '(')) (trace "between" (recursive 0 .fresh .depth))
            (token ')')))
        (value 0))

theorem Nesting.alike_decorated (β : Type) (rule : Nesting β) :
    (Nesting.rules β rule).Alike (.upToReports True) (Nesting.decorated β rule) := by
  have hfree : ¬ (Likeness.upToReports True).reports := id
  cases rule
  refine .withExpected_right _ hfree (.orElse (.observe_right _ hfree ?_) (.refl _ _))
  exact .map3 _ (.map_id_right hfree (.refl _ _)) (.observe_right _ hfree (.refl _ _)) (.refl _ _)

/-- A closing parenthesis is missing. With and without decoration, the parse fails at the fourth token
    for the same cause and with the same message; with it, three remarks were made before. -/
theorem exists_run_of_alike_nesting :
    let p : Parser Char Nesting Unit Nat := recursive 1 .shared .depth
    let ruler := Ruler.ofString (TextLayout.next {})
    let w : World Char Unit := ⟨State.initial Position.first ['(', '(', ')', 'a'], [], .empty⟩
    (∀ (β : Type) (rule : Nesting β),
      (Nesting.rules β rule).Alike (.upToReports True) (Nesting.decorated β rule)) ∧
    ∃ v v', (p.eval ruler (calls ruler Nesting.rules 3) 0).run w = (.ok (.failure true), v) ∧
      (p.eval ruler (calls ruler Nesting.decorated 3) 0).run w = (.ok (.failure true), v') ∧
      v.state.error.cause = ⟨some 'a', ⟨1, 4⟩, false⟩ ∧
      v'.state.error.cause = ⟨some 'a', ⟨1, 4⟩, false⟩ ∧
      v.state.error.message = v'.state.error.message ∧
      v.events.length + 3 = v'.events.length := by
  intro p ruler w
  have hrun : (p.eval ruler (calls ruler Nesting.rules 3) 0).run w = (.ok (.failure true), _) := rfl
  have hrun' : (p.eval ruler (calls ruler Nesting.decorated 3) 0).run w =
      (.ok (.failure true), _) := rfl
  obtain ⟨r, r', v, v', hfirst, hsecond, -, -, -, hcause, hmessage⟩ :=
    exists_run_of_alike Nesting.alike_decorated (.refl _ p) ruler 3 0 0 (Eq.refl w.state)
  rw [hrun] at hfirst
  rw [hrun'] at hsecond
  obtain ⟨-, rfl⟩ := Prod.mk.inj hfirst
  obtain ⟨-, rfl⟩ := Prod.mk.inj hsecond
  exact ⟨Nesting.alike_decorated, _, _, hrun, hrun', rfl, hcause.symm, hmessage trivial, rfl⟩

end Parser

end CommittedChoice
