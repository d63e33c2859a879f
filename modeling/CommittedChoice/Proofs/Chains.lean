import CommittedChoice.Proofs.Consuming

set_option autoImplicit false

/-! # What a chain does

A chain is a loop, but what it does can be said without one. It comes to the end of a row of attempts
that succeed and consume (`Run.Repeats`), and the attempt after these decides: the chain succeeds with
the fold of the values if it fails without consuming, fails if it fails after consuming, stops if it
stops, and is at fault if it succeeds without consuming. `Run.ChainEnds` lists the cases, and
`Run.chain_run_iff` says that a chain ends in this way and no other.

The row ends because each attempt in it leaves fewer tokens (`Run.exists_repeats`), and the bound of
the loop leaves room for it (`Run.Repeats.exists_run_chain`). If the very first attempt fails without
consuming, then so does the chain. If it succeeds without consuming, the loop goes on; but then the
second attempt does the same, and the loop finds out. -/

namespace CommittedChoice

variable {τ ω α β : Type} {ρ : Type → Type} {ruler : Ruler τ}

namespace Run

/-! ## Attempts in a row -/

/-- Attempts one after the other that succeed and consume, with their values. -/
inductive Repeats (x : Run τ ω (Outcome α)) : World τ ω → List α → World τ ω → Prop where
  | nil (w : World τ ω) : Repeats x w [] w
  | cons {w w₁ u : World τ ω} {v : α} {vs : List α}
      (hrun : x.run w = (.ok (.success v true), w₁)) (hrest : Repeats x w₁ vs u) :
      Repeats x w (v :: vs) u

variable {x : Run τ ω (Outcome α)} {w u : World τ ω} {v : α} {vs : List α}

theorem Repeats.length_le (hmoves : x.Moves ruler false) (h : x.Repeats w vs u) :
    vs.length + u.state.place.rest.length ≤ w.state.place.rest.length := by
  induction h with
  | nil w => simp
  | cons hrun _ ih =>
      have hlt := hmoves.length_rest_lt hrun rfl
      rw [List.length_cons]
      omega

/-- The row ends at an attempt that does not succeed or does not consume. -/
theorem exists_repeats (hmoves : x.Moves ruler false) (w : World τ ω) :
    ∃ vs u, x.Repeats w vs u ∧ ∀ v u', x.run u ≠ (.ok (.success v true), u') := by
  induction hn : w.state.place.rest.length using Nat.strongRecOn generalizing w with
  | ind n ih =>
      by_cases hnext : ∃ v w₁, x.run w = (.ok (.success v true), w₁)
      · obtain ⟨v, w₁, hrun⟩ := hnext
        have hlt := hmoves.length_rest_lt hrun rfl
        obtain ⟨vs, u, hrest, hlast⟩ := ih _ (hn ▸ hlt) w₁ rfl
        exact ⟨v :: vs, u, .cons hrun hrest, hlast⟩
      · exact ⟨[], w, .nil w, fun v w₁ hrun => hnext ⟨v, w₁, hrun⟩⟩

/-! ## The loop goes through the row -/

theorem Repeats.run_rounds (h : x.Repeats w vs u) (loop : Loop) (name : String)
    (combine : β → α → β) (fuel : Nat) (acc : β) (count : Nat) :
    (rounds loop name combine x (fuel + vs.length) acc true count).run w =
      (rounds loop name combine x fuel (vs.foldl combine acc) true (count + vs.length)).run u := by
  induction h generalizing acc count with
  | nil w => rfl
  | @cons w w₁ u v vs hrun _ ih =>
      have hround : (rounds loop name combine x (fuel + vs.length + 1) acc true count).run w =
          (rounds loop name combine x (fuel + vs.length) (combine acc v) true (count + 1)).run w₁ := by
        rw [rounds, run_bind_of_ok hrun]
      rw [List.length_cons, ← Nat.add_assoc, hround, ih, List.foldl_cons, Nat.add_assoc count,
        Nat.add_comm 1]

theorem run_chain_of_success {consumed : Bool} {w₁ : World τ ω}
    (hrun : x.run w = (.ok (.success v consumed), w₁)) (name : String) (seed : β)
    (combine : β → α → β) :
    (chain name seed combine x).run w =
      (rounds .chain name combine x (w₁.state.place.rest.length + 1) (combine seed v) consumed
        1).run w₁ := by
  rw [chain, run_bind_of_ok hrun]
  rfl

/-- A chain that has come to the end of its row is in the loop, with the fold of the values, and the
    loop is not at its bound. -/
theorem Repeats.exists_run_chain (hmoves : x.Moves ruler false) (h : x.Repeats w vs u)
    (hvs : vs ≠ []) (name : String) (seed : β) (combine : β → α → β) :
    ∃ fuel, (chain name seed combine x).run w =
      (rounds .chain name combine x (fuel + 1) (vs.foldl combine seed) true vs.length).run u := by
  cases h with
  | nil w => exact absurd rfl hvs
  | @cons _ w₁ _ v vs hrun hrest =>
      have hle := hrest.length_le hmoves
      obtain ⟨fuel, hfuel⟩ : ∃ fuel, w₁.state.place.rest.length + 1 = fuel + 1 + vs.length :=
        ⟨w₁.state.place.rest.length - vs.length, by omega⟩
      refine ⟨fuel, ?_⟩
      rw [run_chain_of_success hrun, hfuel, hrest.run_rounds, List.foldl_cons, List.length_cons,
        Nat.add_comm 1]

/-! ## How a chain ends -/

/-- The end of a chain, by what the attempt after a row of consuming successes does. -/
inductive ChainEnds (name : String) (seed : β) (combine : β → α → β) (x : Run τ ω (Outcome α))
    (w : World τ ω) : Except Stop (Outcome β) → World τ ω → Prop where
  /-- It fails without consuming, and there was a success before. -/
  | ended {vs : List α} {u u' : World τ ω} (hvs : vs ≠ []) (hrepeats : x.Repeats w vs u)
      (hlast : x.run u = (.ok (.failure false), u')) :
      ChainEnds name seed combine x w (.ok (.success (vs.foldl combine seed) true))
        { u' with events := .ended .chain vs.length :: u'.events }
  /-- It is the first one and fails without consuming. -/
  | missing {w' : World τ ω} (hfirst : x.run w = (.ok (.failure false), w')) :
      ChainEnds name seed combine x w (.ok (.failure false)) w'
  /-- It fails after consuming. -/
  | broken {vs : List α} {u w' : World τ ω} (hrepeats : x.Repeats w vs u)
      (hlast : x.run u = (.ok (.failure true), w')) :
      ChainEnds name seed combine x w (.ok (.failure true)) w'
  /-- It stops. -/
  | stopped {vs : List α} {u w' : World τ ω} {reason : Stop} (hrepeats : x.Repeats w vs u)
      (hlast : x.run u = (.error reason, w')) :
      ChainEnds name seed combine x w (.error reason) w'
  /-- It succeeds without consuming. The loop finds out at once, or with one more attempt if this was
      the first one. -/
  | looped {vs : List α} {u u₁ u₂ : World τ ω} {v : α} (hrepeats : x.Repeats w vs u)
      (hlast : x.run u = (.ok (.success v false), u₁))
      (hfound : vs ≠ [] ∧ u₂ = u₁ ∨ vs = [] ∧ x.run u₁ = (.ok (.success v false), u₂)) :
      ChainEnds name seed combine x w (.error (.fault (Loop.chain.fault name)))
        { u₂ with events := .looped .chain name u₂.state.position :: u₂.events }

namespace ChainEnds

variable {name : String} {seed : β} {combine : β → α → β} {w' : World τ ω}

theorem success_iff {b : β} {c : Bool} :
    ChainEnds name seed combine x w (.ok (.success b c)) w' ↔
      ∃ vs u u', vs ≠ [] ∧ x.Repeats w vs u ∧ x.run u = (.ok (.failure false), u') ∧
        b = vs.foldl combine seed ∧ c = true ∧
        w' = { u' with events := .ended .chain vs.length :: u'.events } := by
  constructor
  · intro h
    obtain ⟨hvs, hrepeats, hlast⟩ := h
    exact ⟨_, _, _, hvs, hrepeats, hlast, rfl, rfl, rfl⟩
  · rintro ⟨vs, u, u', hvs, hrepeats, hlast, rfl, rfl, rfl⟩
    exact .ended hvs hrepeats hlast

theorem missing_iff :
    ChainEnds name seed combine x w (.ok (.failure false)) w' ↔
      x.run w = (.ok (.failure false), w') := by
  refine ⟨fun h => ?_, .missing⟩
  cases h with
  | missing hfirst => exact hfirst

theorem broken_iff :
    ChainEnds name seed combine x w (.ok (.failure true)) w' ↔
      ∃ vs u, x.Repeats w vs u ∧ x.run u = (.ok (.failure true), w') := by
  constructor
  · intro h
    cases h with
    | broken hrepeats hlast => exact ⟨_, _, hrepeats, hlast⟩
  · rintro ⟨vs, u, hrepeats, hlast⟩
    exact .broken hrepeats hlast

theorem error_iff {reason : Stop} :
    ChainEnds name seed combine x w (.error reason) w' ↔
      (∃ vs u, x.Repeats w vs u ∧ x.run u = (.error reason, w')) ∨
      reason = .fault (Loop.chain.fault name) ∧
        ∃ vs u v u₁ u₂, x.Repeats w vs u ∧ x.run u = (.ok (.success v false), u₁) ∧
          (vs ≠ [] ∧ u₂ = u₁ ∨ vs = [] ∧ x.run u₁ = (.ok (.success v false), u₂)) ∧
          w' = { u₂ with events := .looped .chain name u₂.state.position :: u₂.events } := by
  constructor
  · intro h
    cases h with
    | stopped hrepeats hlast => exact .inl ⟨_, _, hrepeats, hlast⟩
    | looped hrepeats hlast hfound =>
        exact .inr ⟨rfl, _, _, _, _, _, hrepeats, hlast, hfound, rfl⟩
  · rintro (⟨vs, u, hrepeats, hlast⟩ | ⟨rfl, vs, u, v, u₁, u₂, hrepeats, hlast, hfound, rfl⟩)
    · exact .stopped hrepeats hlast
    · exact .looped hrepeats hlast hfound

end ChainEnds

/-- A chain ends as the attempt after its row says. -/
theorem ChainEnds.run_eq (hmoves : x.Moves ruler false) {name : String} {seed : β}
    {combine : β → α → β} {r : Except Stop (Outcome β)} {w' : World τ ω}
    (h : ChainEnds name seed combine x w r w') : (chain name seed combine x).run w = (r, w') := by
  -- the first attempt is made before the loop, so that an empty row is a case of its own
  cases h with
  | ended hvs hrepeats hlast =>
      obtain ⟨fuel, hchain⟩ := hrepeats.exists_run_chain hmoves hvs name seed combine
      rw [hchain, rounds, run_bind_of_ok hlast]
      rfl
  | missing hfirst =>
      rw [chain, run_bind_of_ok hfirst]
      rfl
  | @broken vs u _ hrepeats hlast =>
      by_cases hvs : vs = []
      · subst hvs
        cases hrepeats
        rw [chain, run_bind_of_ok hlast]
        rfl
      · obtain ⟨fuel, hchain⟩ := hrepeats.exists_run_chain hmoves hvs name seed combine
        rw [hchain, rounds, run_bind_of_ok hlast]
        rfl
  | @stopped vs u _ reason hrepeats hlast =>
      by_cases hvs : vs = []
      · subst hvs
        cases hrepeats
        rw [chain, run_bind_of_error hlast]
      · obtain ⟨fuel, hchain⟩ := hrepeats.exists_run_chain hmoves hvs name seed combine
        rw [hchain, rounds, run_bind_of_error hlast]
  | looped hrepeats hlast hfound =>
      rcases hfound with ⟨hvs, rfl⟩ | ⟨rfl, hagain⟩
      · obtain ⟨fuel, hchain⟩ := hrepeats.exists_run_chain hmoves hvs name seed combine
        rw [hchain, rounds, run_bind_of_ok hlast]
        rfl
      · cases hrepeats
        rw [run_chain_of_success hlast, rounds, run_bind_of_ok hagain]
        rfl

/-- An attempt that succeeds without consuming is found out: if it is the first one, then by the
    second, which does the same. -/
theorem exists_found (hmoves : x.Moves ruler false)
    (hcouples : x.Couples (Coupling.byPlace ω ruler) False x) {u₁ : World τ ω}
    (hlast : x.run u = (.ok (.success v false), u₁)) (vs : List α) :
    ∃ u₂, vs ≠ [] ∧ u₂ = u₁ ∨ vs = [] ∧ x.run u₁ = (.ok (.success v false), u₂) := by
  by_cases hvs : vs = []
  · obtain ⟨u₂, hagain⟩ := exists_run_again hmoves hcouples hlast rfl
    exact ⟨u₂, .inr ⟨hvs, hagain⟩⟩
  · exact ⟨u₁, .inl ⟨hvs, rfl⟩⟩

/-- Every chain has one of these ends. -/
theorem exists_chainEnds (hmoves : x.Moves ruler false)
    (hcouples : x.Couples (Coupling.byPlace ω ruler) False x) (name : String) (seed : β)
    (combine : β → α → β) (w : World τ ω) : ∃ r w', ChainEnds name seed combine x w r w' := by
  obtain ⟨vs, u, hrepeats, hlast⟩ := exists_repeats hmoves w
  rcases hrun : x.run u with ⟨reason | ⟨v, _ | _⟩ | _ | _, u'⟩
  · exact ⟨_, _, .stopped hrepeats hrun⟩
  · obtain ⟨u₂, hfound⟩ := exists_found hmoves hcouples hrun vs
    exact ⟨_, _, .looped hrepeats hrun hfound⟩
  · exact absurd hrun (hlast v u')
  · by_cases hvs : vs = []
    · subst hvs
      cases hrepeats
      exact ⟨_, _, .missing hrun⟩
    · exact ⟨_, _, .ended hvs hrepeats hrun⟩
  · exact ⟨_, _, .broken hrepeats hrun⟩

theorem chain_run_iff (hmoves : x.Moves ruler false)
    (hcouples : x.Couples (Coupling.byPlace ω ruler) False x) {name : String} {seed : β}
    {combine : β → α → β} {r : Except Stop (Outcome β)} {w w' : World τ ω} :
    (chain name seed combine x).run w = (r, w') ↔ ChainEnds name seed combine x w r w' := by
  refine ⟨fun hrun => ?_, fun h => h.run_eq hmoves⟩
  obtain ⟨r₁, w₁, hends⟩ := exists_chainEnds hmoves hcouples name seed combine w
  obtain ⟨rfl, rfl⟩ := Prod.mk.inj ((hends.run_eq hmoves).symm.trans hrun)
  exact hends

end Run

/-! ## Chains of parsers -/

namespace Parser

/-- **What a chain does.** Let `x` be the attempt of a parser and `y` the chain of it, both from a
    state of any kind.

    The chain succeeds exactly if some attempts in a row, one at least, succeed and consume and the
    next one fails without consuming. Then its value is the fold of the values, its flag is on, and
    it ends at the cursor and the position where that attempt started. It fails without consuming
    exactly if the first attempt does. It fails after consuming exactly if an attempt does that
    follows any number of consuming successes, and with the error of that attempt. It stops exactly
    if such an attempt stops, for the same reason, or succeeds without consuming. The latter is the
    fault of the chain, and it is found with the attempt itself unless that is the first one, and
    with the second attempt then. -/
theorem chain_eval_calls_iff (ruler : Ruler τ) (rules : Rules τ ρ ω) (depth : Nat)
    (p : Parser τ ρ ω α) (copy : Nat) (name : String) (seed : β) (combine : β → α → β)
    (w : World τ ω) :
    let x := p.eval ruler (calls ruler rules depth) copy
    let y := (chain name seed combine p).eval ruler (calls ruler rules depth) copy
    (∀ b c w', y.run w = (.ok (.success b c), w') ↔
      ∃ vs u u', vs ≠ [] ∧ x.Repeats w vs u ∧ x.run u = (.ok (.failure false), u') ∧
        b = vs.foldl combine seed ∧ c = true ∧
        w' = { u' with events := .ended .chain vs.length :: u'.events }) ∧
    (∀ u u', x.run u = (.ok (.failure false), u') →
      u'.state.cursor = u.state.cursor ∧ u'.state.position = u.state.position) ∧
    (∀ w', y.run w = (.ok (.failure false), w') ↔ x.run w = (.ok (.failure false), w')) ∧
    (∀ w', y.run w = (.ok (.failure true), w') ↔
      ∃ vs u, x.Repeats w vs u ∧ x.run u = (.ok (.failure true), w')) ∧
    (∀ reason w', y.run w = (.error reason, w') ↔
      (∃ vs u, x.Repeats w vs u ∧ x.run u = (.error reason, w')) ∨
      reason = .fault (Loop.chain.fault name) ∧
        ∃ vs u v u₁ u₂, x.Repeats w vs u ∧ x.run u = (.ok (.success v false), u₁) ∧
          (vs ≠ [] ∧ u₂ = u₁ ∨ vs = [] ∧ x.run u₁ = (.ok (.success v false), u₂)) ∧
          w' = { u₂ with events := .looped .chain name u₂.state.position :: u₂.events }) ∧
    (∀ vs u v u₁, x.Repeats w vs u → x.run u = (.ok (.success v false), u₁) →
      ∃ w', y.run w = (.error (.fault (Loop.chain.fault name)), w')) := by
  intro x y
  have hmoves : x.Moves ruler false := moves_eval_calls ruler rules depth p copy
  have hcouples : x.Couples (Coupling.byPlace ω ruler) False x :=
    couples_eval_calls (Coupling.byPlace ω ruler) rules depth p (fun _ => rfl) False
  have hchain (r : Except Stop (Outcome β)) (w' : World τ ω) :
      y.run w = (r, w') ↔ Run.ChainEnds name seed combine x w r w' :=
    Run.chain_run_iff hmoves hcouples
  refine ⟨fun b c w' => ?_, fun u u' hrun => ?_, fun w' => ?_, fun w' => ?_, fun reason w' => ?_,
    fun vs u v u₁ hrepeats hlast => ?_⟩
  · rw [hchain, Run.ChainEnds.success_iff]
  · have hplace := hmoves.place_eq hrun rfl
    simp only [State.cursor, State.position, hplace, and_self]
  · rw [hchain, Run.ChainEnds.missing_iff]
  · rw [hchain, Run.ChainEnds.broken_iff]
  · rw [hchain, Run.ChainEnds.error_iff]
  · obtain ⟨u₂, hfound⟩ := Run.exists_found hmoves hcouples hlast vs
    exact ⟨_, (hchain _ _).2 (.looped hrepeats hlast hfound)⟩

/-- A chain of a token at the last column neither has an outcome nor is at fault: its first attempt
    stops, because there is no column behind the token. -/
theorem chain_overflow_at_last_column :
    let p : Parser Char (fun _ => Empty) Unit (List Char) :=
      chain "any token" [] (fun vs v => vs ++ [v]) anyToken
    let ruler := Ruler.ofString (TextLayout.next {})
    let w : World Char Unit := ⟨State.initial ⟨1, Position.maxCoordinate⟩ ['a'], [], .empty⟩
    ∀ depth, ¬ ∃ r w',
      (p.eval ruler (calls ruler (fun _ => Empty.elim) depth) 0).run w = (r, w') ∧
        ((∃ outcome, r = .ok outcome) ∨ ∃ error, r = .error (.fault error)) := by
  intro p ruler w depth
  rintro ⟨r, w', hrun, hr⟩
  have hoverflow : (p.eval ruler (calls ruler (fun _ => Empty.elim) depth) 0).run w =
      (.error .overflow, _) := rfl
  rw [hoverflow] at hrun
  obtain ⟨rfl, -⟩ := Prod.mk.inj hrun
  rcases hr with ⟨_, h⟩ | ⟨_, h⟩ <;> cases h

end Parser

end CommittedChoice
