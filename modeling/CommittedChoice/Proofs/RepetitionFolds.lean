import CommittedChoice.Proofs.SeparatedLists
import CommittedChoice.Text.Parsers

set_option autoImplicit false

/-! # Repetitions as folds

A parser can be repeated at least once or any number of times, and its values can be listed, folded,
dropped or joined to a text. Each of these repetitions has an accumulator of its own, and those that
may find nothing have five different ways to say so. But there is only one way to repeat a parser:
every repetition reads what the list of the values reads, ends in the same world, and its value is a
fold of the list (`Parser.IsFold`). This holds for successes, for failures and for stops; where the
loop is at fault, the two faults may call the body by different names.

Both loops come to the end of the same row of attempts, so that it is enough to look at the ways in
which a chain can end (`Run.ChainEnds.folded`). The value for nothing is the fold of the empty list
(`Parser.IsFold.orElse`). The main statement is `Parser.repetitions_are_folds`. -/

namespace CommittedChoice

variable {τ ω α β : Type} {ρ : Type → Type} {ruler : Ruler τ}

/-! ## Ends that differ by a fold -/

/-- The world after a chain has reported that its body, called `name`, does not consume. -/
def World.looped (w : World τ ω) (name : String) : World τ ω :=
  { w with events := .looped .chain name w.state.position :: w.events }

/-- How a repetition that folds its values ends, by how the one that lists them ends. The value is
    `f` of the list and nothing else differs, unless the loop is at fault, which shows the name of
    its body. -/
inductive Run.Folded (f : α → β) (name name' : String) :
    Except Stop (Outcome α) × World τ ω → Except Stop (Outcome β) × World τ ω → Prop where
  | same (r : Except Stop (Outcome α)) (w : World τ ω) :
      Folded f name name' (r, w) (r.map (Outcome.map f), w)
  | looped (w : World τ ω) :
      Folded f name name' (.error (.fault (Loop.chain.fault name)), w.looped name)
        (.error (.fault (Loop.chain.fault name')), w.looped name')

/-- All chains of a body go through the same row of attempts and end behind it in the same way. -/
theorem Run.ChainEnds.folded {x : Run τ ω (Outcome α)} (hmoves : x.Moves ruler false)
    {name : String} {w u : World τ ω} {r : Except Stop (Outcome (List α))}
    (h : ChainEnds name [] (fun vs v => v :: vs) x w r u) (name' : String) (seed : β)
    (combine : β → α → β) :
    Folded (·.foldl combine seed) name name' (r.map (Outcome.map List.reverse), u)
      ((chain name' seed combine x).run w) := by
  cases h with
  | @ended vs _ _ hvs hrepeats hlast =>
      rw [(ChainEnds.ended hvs hrepeats hlast).run_eq hmoves]
      -- the list is built backwards and turned round in the end
      have hlist : (vs.foldl (fun vs v => v :: vs) []).reverse = vs := by simp
      simp only [Except.map, Outcome.map, hlist]
      exact .same (.ok (.success vs true)) _
  | missing hfirst =>
      rw [(ChainEnds.missing hfirst).run_eq hmoves]
      exact .same (.ok (.failure false)) u
  | broken hrepeats hlast =>
      rw [(ChainEnds.broken hrepeats hlast).run_eq hmoves]
      exact .same (.ok (.failure true)) u
  | @stopped _ _ _ reason hrepeats hlast =>
      rw [(ChainEnds.stopped hrepeats hlast).run_eq hmoves]
      exact .same (.error reason) u
  | looped hrepeats hlast hfound =>
      rw [(ChainEnds.looped hrepeats hlast hfound).run_eq hmoves]
      exact .looped _

namespace Parser

/-- The second parser expects what the first one expects, reads what it reads and makes `f` of its
    value. `name` and `name'` are what the loops of the two call their bodies. -/
structure IsFold (f : α → β) (name name' : String) (p : Parser τ ρ ω α)
    (q : Parser τ ρ ω β) : Prop where
  expected : q.expected = p.expected
  run (ruler : Ruler τ) (rules : Rules τ ρ ω) (depth copy : Nat) (w : World τ ω) :
    Run.Folded f name name' ((p.eval ruler (calls ruler rules depth) copy).run w)
      ((q.eval ruler (calls ruler rules depth) copy).run w)

/-! ## At least one value -/

/-- The list of the values ends as a chain of the parser does. -/
theorem exists_chainEnds_many1 (ruler : Ruler τ) (rules : Rules τ ρ ω) (depth copy : Nat)
    (p : Parser τ ρ ω α) (name : String) (w : World τ ω) :
    ∃ r u, Run.ChainEnds name [] (fun vs v => v :: vs)
        (p.eval ruler (calls ruler rules depth) copy) w r u ∧
      ((many1 name p).eval ruler (calls ruler rules depth) copy).run w =
        (r.map (Outcome.map List.reverse), u) := by
  have hmoves := moves_eval_calls ruler rules depth p copy
  have hcouples : (p.eval ruler (calls ruler rules depth) copy).Couples (Coupling.byPlace ω ruler)
      False (p.eval ruler (calls ruler rules depth) copy) :=
    couples_eval_calls (Coupling.byPlace ω ruler) rules depth p (fun _ => rfl) False
  obtain ⟨r, u, hends⟩ := Run.exists_chainEnds hmoves hcouples name [] (fun vs v => v :: vs) w
  exact ⟨r, u, hends, run_many1_of_chainEnds name hmoves hends⟩

theorem isFold_chain (name name' : String) (seed : β) (combine : β → α → β)
    (p : Parser τ ρ ω α) :
    IsFold (·.foldl combine seed) name name' (many1 name p) (chain name' seed combine p) := by
  refine ⟨rfl, fun ruler rules depth copy w => ?_⟩
  obtain ⟨r, u, hends, hrun⟩ := exists_chainEnds_many1 ruler rules depth copy p name w
  rw [hrun]
  exact hends.folded (moves_eval_calls ruler rules depth p copy) name' seed combine

/-! ## A value for nothing -/

/-- The parser reads nothing and gives a value. -/
structure IsValue (v : α) (q : Parser τ ρ ω α) : Prop where
  expected : q.expected = [.noInput]
  eval (ruler : Ruler τ) (call : Calls τ ρ ω) (copy : Nat) :
    q.eval ruler call copy = return .success v false

theorem isValue_value (v : α) : (value v : Parser τ ρ ω α).IsValue v :=
  ⟨rfl, fun _ _ _ => rfl⟩

theorem isValue_map_unit (v : α) : (map (fun _ => v) unit : Parser τ ρ ω α).IsValue v :=
  ⟨rfl, fun _ _ _ => rfl⟩

theorem IsFold.orElse {f : α → β} {name name' : String} {p p₀ : Parser τ ρ ω α}
    {q q₀ : Parser τ ρ ω β} {v : α} (h : IsFold f name name' p q) (hp : p₀.IsValue v)
    (hq : q₀.IsValue (f v)) : IsFold f name name' (orElse p p₀) (orElse q q₀) := by
  refine ⟨?_, fun ruler rules depth copy w => ?_⟩
  · rw [expected_orElse, expected_orElse, h.expected, hp.expected, hq.expected]
  · have hends := h.run ruler rules depth copy w
    generalize hfirst : (p.eval ruler (calls ruler rules depth) copy).run w = a at hends
    generalize hfirst' : (q.eval ruler (calls ruler rules depth) copy).run w = b at hends
    cases hends with
    | looped u =>
        rw [run_orElse_of_error hfirst, run_orElse_of_error hfirst']
        exact .looped u
    | same r u =>
        rcases r with reason | ⟨a, c⟩ | _ | _
        · rw [run_orElse_of_error hfirst, run_orElse_of_error hfirst']
          exact .same (.error reason) u
        · rw [run_orElse_of_committed hfirst rfl, run_orElse_of_committed hfirst' rfl]
          exact .same (.ok (.success a c)) u
        · -- nothing is found, and each has its own value for that
          have hnothing := congrArg (·.run u) (hp.eval ruler (calls ruler rules depth) copy)
          have hnothing' := congrArg (·.run u) (hq.eval ruler (calls ruler rules depth) copy)
          rw [run_orElse_of_failure hfirst hnothing, run_orElse_of_failure hfirst' hnothing']
          exact .same (.ok (.success v false)) u
        · rw [run_orElse_of_committed hfirst rfl, run_orElse_of_committed hfirst' rfl]
          exact .same (.ok (.failure true)) u

/-! ## The flag of a list -/

theorem many1_success_consumed {rules : Rules τ ρ ω} {depth copy : Nat} {p : Parser τ ρ ω α}
    {name : String} {w w' : World τ ω} {vs : List α} {c : Bool}
    (h : ((many1 name p).eval ruler (calls ruler rules depth) copy).run w =
      (.ok (.success vs c), w')) : vs ≠ [] ∧ c = true := by
  obtain ⟨r, u, hends, hrun⟩ := exists_chainEnds_many1 ruler rules depth copy p name w
  rw [hrun] at h
  cases hends with
  | ended hvs =>
      simp only [Except.map, Outcome.map, Prod.mk.injEq, Except.ok.injEq,
        Outcome.success.injEq] at h
      obtain ⟨⟨rfl, rfl⟩, -⟩ := h
      simpa using hvs
  | missing => cases h
  | broken => cases h
  | stopped => cases h
  | looped => cases h

/-- Any number of values has consumed exactly if there is a value. -/
theorem many_success_consumed_iff {rules : Rules τ ρ ω} {depth copy : Nat} {p : Parser τ ρ ω α}
    {name : String} {w w' : World τ ω} {vs : List α} {c : Bool}
    (h : ((many name p).eval ruler (calls ruler rules depth) copy).run w =
      (.ok (.success vs c), w')) : c = false ↔ vs = [] := by
  rcases hfirst : ((many1 name p).eval ruler (calls ruler rules depth) copy).run w with
    ⟨reason | ⟨vs₁, c₁⟩ | _ | _, u⟩
  · rw [many, run_orElse_of_error hfirst] at h
    cases h
  · rw [many, run_orElse_of_committed hfirst rfl] at h
    cases h
    simp [many1_success_consumed hfirst]
  · rw [many, run_orElse_of_failure hfirst rfl] at h
    cases h
    simp
  · rw [many, run_orElse_of_committed hfirst rfl] at h
    cases h

/-! ## All repetitions -/

/-- **Repetitions are folds of each other.** Let a parser be repeated at least once, or any number of
    times. A chain of it gives the answer of the repetition that lists its values, with the list
    replaced by its fold from the seed, and ends in the same world: at the same place, with the same
    bookmarks, error, events and resolved parsers. To drop the values and to join their texts are
    special cases. What is expected is the same as well. Only where the loop finds that its body does
    not consume may the faults and their reports differ, by the name of the body in them.

    The repetition that lists any number of values succeeds without consuming exactly if the list is
    empty. -/
theorem repetitions_are_folds (p : Parser τ ρ ω α) (name name' : String) :
    (∀ {β : Type} (seed : β) (combine : β → α → β),
      IsFold (·.foldl combine seed) name name' (many1 name p) (chain name' seed combine p) ∧
      IsFold (·.foldl combine seed) name name' (many name p)
        (chainOrSeed name' seed combine p)) ∧
    (IsFold (fun _ => ()) name name' (many1 name p) (skipMany1 name' p) ∧
      IsFold (fun _ => ()) name name' (many name p) (skipMany name' p)) ∧
    (∀ text : α → String,
      IsFold (fun vs => String.join (vs.map text)) name name' (many1 name p)
        (manyString1 name' text p) ∧
      IsFold (fun vs => String.join (vs.map text)) name name' (many name p)
        (manyString name' text p)) ∧
    ∀ (ruler : Ruler τ) (rules : Rules τ ρ ω) (depth copy : Nat) (w w' : World τ ω) (vs : List α)
      (c : Bool),
      ((many name p).eval ruler (calls ruler rules depth) copy).run w = (.ok (.success vs c), w') →
      (c = false ↔ vs = []) := by
  refine ⟨fun seed combine => ?_, ?_, fun text => ?_, fun _ _ _ _ _ _ _ _ h => ?_⟩
  · have hchain := isFold_chain name name' seed combine p
    exact ⟨hchain, hchain.orElse (isValue_map_unit []) (isValue_map_unit seed)⟩
  · have hskip := isFold_chain name name' () (fun _ _ => ()) p
    exact ⟨hskip, hskip.orElse (isValue_map_unit []) (isValue_value ())⟩
  · have hjoin : (fun vs : List α => vs.foldl (fun joined v => joined ++ text v) "") =
        fun vs => String.join (vs.map text) := by
      funext vs
      rw [String.join, List.foldl_map]
    have hstring := isFold_chain name name' "" (fun joined v => joined ++ text v) p
    rw [hjoin] at hstring
    exact ⟨hstring, hstring.orElse (isValue_map_unit []) (isValue_value "")⟩
  · exact many_success_consumed_iff h

end Parser

end CommittedChoice
