import CommittedChoice.Proofs.Noninterference
import CommittedChoice.Proofs.Termination

set_option autoImplicit false

/-! # A criterion for consuming

Whether every success of a parser has consumed can often be read off the parser. `Parser.isConsuming`
is such a test: a token is read where one has to fit, a sequence consumes if one of its components
does, and a choice if all of its alternatives do. That a parser which passes the test always consumes
is `Parser.alwaysConsumes_eval_calls`.

A chain passes the test whatever its body is. The loop lets the first round succeed without consuming
and looks at the flag only from the second round on, so that this needs an argument: the second round
starts at the place of the first one, hence it succeeds without consuming as well, and then the loop
is at fault (`Run.AlwaysConsumes.chain`).

A parser is productive if the body of each of its loops passes the test (`Parser.Productive`). -/

namespace CommittedChoice

variable {τ ω α β γ : Type} {ρ : Type → Type} {ruler : Ruler τ}

/-! ## Computations that always consume -/

namespace Run

/-- The computation can end with this value. -/
def Returns (x : Run τ ω α) (a : α) : Prop := ∃ w w', x.run w = (.ok a, w')

/-- An attempt that did not consume is followed by another one like it: nothing has moved. -/
theorem exists_run_again {x : Run τ ω (Outcome α)} (hmoves : x.Moves ruler false)
    (hcouples : x.Couples (Coupling.byPlace ω ruler) False x) {w w₁ : World τ ω}
    {outcome : Outcome α} (hrun : x.run w = (.ok outcome, w₁))
    (hconsumed : outcome.consumed = false) : ∃ w₂, x.run w₁ = (.ok outcome, w₂) := by
  have hplace : w.state.place = w₁.state.place := (hmoves.place_eq hrun hconsumed).symm
  obtain ⟨r, _, w₂, hfirst, hsecond, -⟩ := hcouples (Coupling.joins_byPlace hplace)
  rw [hrun] at hfirst
  obtain ⟨rfl, -⟩ := Prod.mk.inj hfirst
  exact ⟨w₂, hsecond⟩

namespace AlwaysConsumes

variable {x : Run τ ω (Outcome α)}

theorem eq_true (hx : x.AlwaysConsumes) {v : α} {consumed : Bool}
    (h : x.Returns (.success v consumed)) : consumed = true := by
  obtain ⟨w, w', hrun⟩ := h
  exact hx hrun

theorem not_returns (hx : x.AlwaysConsumes) (v : α) : ¬ x.Returns (.success v false) :=
  fun h => Bool.false_ne_true (hx.eq_true h)

theorem success {v : α} {consumed : Bool} (h : consumed = true) :
    (pure (.success v consumed) : Run τ ω (Outcome α)).AlwaysConsumes := by
  rintro w _ _ w' ⟨⟩
  exact h

theorem failure (consumed : Bool) :
    (pure (.failure consumed) : Run τ ω (Outcome α)).AlwaysConsumes := nofun

theorem stop (reason : Stop) : (Run.stop reason : Run τ ω (Outcome α)).AlwaysConsumes := nofun

/-- It is enough to look at the values that the first computation can have. -/
theorem bind {y : Run τ ω β} {f : β → Run τ ω (Outcome α)}
    (hf : ∀ b, y.Returns b → (f b).AlwaysConsumes) : (y >>= f).AlwaysConsumes := by
  intro w v consumed w' hrun
  obtain ⟨b, w₁, hy, hrest⟩ := run_bind_eq_ok_iff.1 hrun
  exact hf b ⟨w, w₁, hy⟩ hrest

theorem map (hx : x.AlwaysConsumes) (f : α → β) :
    (x >>= fun outcome => pure (outcome.map f)).AlwaysConsumes := by
  refine bind fun outcome houtcome => ?_
  cases outcome with
  | success v consumed => exact success (hx.eq_true houtcome)
  | failure consumed => exact failure consumed

theorem forward (expected : List (Expected τ)) (consumed : Bool) :
    (Run.forward expected consumed : Run τ ω (Outcome α)).AlwaysConsumes := nofun

theorem fail (expected : List (Expected τ)) (unexpected : Option τ) (message : String)
    (consumed atEnd : Bool) :
    (Run.fail expected unexpected message consumed atEnd :
      Run τ ω (Outcome α)).AlwaysConsumes := nofun

theorem loopFault (loop : Loop) (name : String) :
    (Run.loopFault loop name : Run τ ω (Outcome α)).AlwaysConsumes := nofun

/-! ## Sequences -/

/-- A literal consumes from its first token on. -/
theorem spelled {expected : List (Expected τ)} {tests : List (τ → Bool)} {earlier : Bool}
    (h : earlier = true ∨ tests ≠ []) :
    (Run.spelled ruler expected earlier tests : Run τ ω (Outcome (List τ))).AlwaysConsumes := by
  induction tests generalizing earlier with
  | nil =>
      rcases h with hearlier | hne
      · exact success hearlier
      · exact absurd rfl hne
  | cons accepts tests ih =>
      refine bind fun s _ => ?_
      split
      · exact fail expected none _ earlier true
      · split
        · exact bind fun _ _ => (ih (.inl rfl)).map _
        · exact fail expected _ _ earlier false

/-- What follows a component knows that its flag is on if the component always consumes. -/
theorem component {expected : List (Expected τ)} {earlier : Bool}
    {next : α → Bool → Run τ ω (Outcome β)}
    (hnext : ∀ v consumed, (earlier = true ∨ x.AlwaysConsumes → consumed = true) →
      (next v consumed).AlwaysConsumes) :
    (Run.component expected earlier x next).AlwaysConsumes := by
  refine bind fun outcome houtcome => ?_
  cases outcome with
  | success v consumed =>
      refine hnext v (earlier || consumed) ?_
      rintro (hearlier | hx)
      · simp [hearlier]
      · simp [hx.eq_true houtcome]
  | failure consumed => exact forward expected (earlier || consumed)

theorem component_last {expected : List (Expected τ)} {earlier : Bool} {f : α → β}
    (h : earlier = true ∨ x.AlwaysConsumes) :
    (Run.component expected earlier x fun v consumed =>
      (pure (.success (f v) consumed) : Run τ ω (Outcome β))).AlwaysConsumes :=
  component fun _ _ hconsumed => success (hconsumed h)

theorem all {expected : List (Expected τ)} {earlier : Bool} {xs : List (Run τ ω (Outcome α))}
    (h : earlier = true ∨ ∃ x ∈ xs, x.AlwaysConsumes) :
    (Run.all expected earlier xs).AlwaysConsumes := by
  induction xs generalizing earlier with
  | nil =>
      rcases h with hearlier | ⟨x, hx, -⟩
      · exact success hearlier
      · cases hx
  | cons x xs ih =>
      refine component fun v consumed hconsumed => (ih ?_).map _
      -- the component that consumes is this one or a later one
      rcases h with hearlier | ⟨y, hy, hconsumes⟩
      · exact .inl (hconsumed (.inl hearlier))
      · rcases List.mem_cons.1 hy with rfl | hmem
        · exact .inl (hconsumed (.inr hconsumes))
        · exact .inr ⟨y, hmem, hconsumes⟩

theorem dependent {f : α → β → γ} {next : α → Run τ ω (Outcome β)} (hx : x.AlwaysConsumes) :
    (Run.dependent f x next).AlwaysConsumes := by
  refine bind fun outcome houtcome => ?_
  cases outcome with
  | success v consumed =>
      refine bind fun outcome _ => ?_
      cases outcome with
      | success u c => exact success (by simp [hx.eq_true houtcome])
      | failure c => exact failure _
  | failure consumed => exact failure consumed

/-! ## Choice and conditions -/

theorem alternatives {exhausted : Option (ParseError τ) → Run τ ω (Outcome α)}
    {best : Option (ParseError τ)} {xs : List (Run τ ω (Outcome α))}
    (hxs : ∀ x ∈ xs, x.AlwaysConsumes) (hexhausted : ∀ e, (exhausted e).AlwaysConsumes) :
    (Run.alternatives exhausted best xs).AlwaysConsumes := by
  induction xs generalizing best with
  | nil => exact hexhausted best
  | cons x xs ih =>
      refine bind fun outcome houtcome => ?_
      rcases outcome with ⟨v, consumed⟩ | _ | _
      · exact success ((hxs x List.mem_cons_self).eq_true houtcome)
      · exact bind fun _ _ => ih fun y hy => hxs y (List.mem_cons_of_mem x hy)
      · exact failure true

theorem choice {expected : List (Expected τ)} {xs : List (Run τ ω (Outcome α))}
    (hxs : ∀ x ∈ xs, x.AlwaysConsumes) : (Run.choice expected xs).AlwaysConsumes := by
  refine alternatives hxs fun e => ?_
  cases e with
  | none => exact fail expected none _ false false
  | some error => exact bind fun _ _ => bind fun _ _ => forward expected false

theorem check {expected : List (Expected τ)} {accepts : α → Bool} {message : α → String}
    (hx : x.AlwaysConsumes) : (Run.check expected accepts message x).AlwaysConsumes := by
  refine bind fun outcome houtcome => ?_
  cases outcome with
  | success v consumed =>
      show (if accepts v then _ else _ : Run τ ω (Outcome α)).AlwaysConsumes
      split
      · exact success (hx.eq_true houtcome)
      · exact fail expected none (message v) consumed false
  | failure consumed => exact failure consumed

theorem safe (hx : x.AlwaysConsumes) : (Run.safe x).AlwaysConsumes := by
  intro w v consumed w' hrun
  simp only [Run.safe, Run.speculate] at hrun
  rcases hbody : x.run { w with state := w.state.pushBookmark } with ⟨reason | ⟨a, c⟩ | c, w₁⟩
  · rw [hbody] at hrun
    cases hrun
  · rw [hbody] at hrun
    cases hrun
    exact hx hbody
  · rw [hbody] at hrun
    cases hrun

/-! ## Repetition -/

/-- Once the flag of a loop is on, it stays on. -/
theorem rounds (loop : Loop) (name : String) (combine : β → α → β) (x : Run τ ω (Outcome α))
    (fuel : Nat) (acc : β) (count : Nat) :
    (Run.rounds loop name combine x fuel acc true count).AlwaysConsumes := by
  induction fuel generalizing acc count with
  | zero => exact stop .unfinished
  | succ fuel ih =>
      refine bind fun outcome _ => ?_
      rcases outcome with ⟨v, _ | _⟩ | _ | _
      · exact loopFault loop name
      · exact ih (combine acc v) (count + 1)
      · exact bind fun _ _ => success rfl
      · exact failure true

/-- A chain cannot succeed without consuming, whatever its body does. If the first round succeeds
    without consuming, then the second one starts at the same place and does the same, which is a
    fault. -/
theorem chain {name : String} {seed : β} {combine : β → α → β} (hmoves : x.Moves ruler false)
    (hcouples : x.Couples (Coupling.byPlace ω ruler) False x) :
    (Run.chain name seed combine x).AlwaysConsumes := by
  intro w b c w' hrun
  obtain ⟨outcome, w₁, hfirst, hrest⟩ := run_bind_eq_ok_iff.1 hrun
  cases outcome with
  | success v consumed =>
      have hloop : (Run.rounds .chain name combine x (w₁.state.place.rest.length + 1)
          (combine seed v) consumed 1).run w₁ = (.ok (.success b c), w') := hrest
      cases consumed with
      | true => exact rounds .chain name combine x _ _ 1 hloop
      | false =>
          -- the second round starts where the first one did and gives the same answer
          obtain ⟨w₂, hsecond⟩ := exists_run_again hmoves hcouples hfirst rfl
          rw [Run.rounds, run_bind_of_ok hsecond] at hloop
          cases hloop
  | failure consumed => cases hrest

theorem continuation {expected : List (Expected τ)} {separator : Run τ ω (Outcome β)}
    (h : x.AlwaysConsumes ∨ separator.AlwaysConsumes) :
    (Run.continuation expected separator x).AlwaysConsumes := by
  refine component fun _ _ hearlier => component_last ?_
  rcases h with hx | hseparator
  · exact .inr hx
  · exact .inl (hearlier (.inr hseparator))

theorem separated {name : String} {expected : List (Expected τ)}
    {separator : Run τ ω (Outcome β)} (hx : x.AlwaysConsumes) :
    (Run.separated name expected x separator).AlwaysConsumes := by
  refine bind fun outcome houtcome => ?_
  cases outcome with
  | success v consumed =>
      obtain rfl := hx.eq_true houtcome
      exact bind fun fuel _ => (rounds .separated name _ _ fuel [v] 1).map _
  | failure consumed => exact failure consumed

theorem optionallyTerminatedRounds (name : String) (x : Run τ ω (Outcome α))
    (separator : Run τ ω (Outcome β)) (fuel : Nat) (found : List α) :
    (Run.optionallyTerminatedRounds name x separator fuel found true).AlwaysConsumes := by
  induction fuel generalizing found with
  | zero => exact stop .unfinished
  | succ fuel ih =>
      refine bind fun outcome _ => ?_
      rcases outcome with ⟨u, separatorConsumed⟩ | _ | _
      · refine bind fun outcome _ => ?_
        rcases outcome with ⟨v, valueConsumed⟩ | _ | _
        · show (if separatorConsumed || valueConsumed then _ else _ :
            Run τ ω (Outcome (List α))).AlwaysConsumes
          split
          · exact ih (v :: found)
          · exact loopFault .optionallyTerminated name
        · exact bind fun _ _ => success rfl
        · exact failure true
      · exact success rfl
      · exact failure true

theorem optionallyTerminated {name : String} {separator : Run τ ω (Outcome β)}
    (hx : x.AlwaysConsumes) : (Run.optionallyTerminated name x separator).AlwaysConsumes := by
  refine bind fun outcome houtcome => ?_
  cases outcome with
  | success v consumed =>
      obtain rfl := hx.eq_true houtcome
      exact bind fun fuel _ => optionallyTerminatedRounds name x separator fuel [v]
  | failure consumed => exact failure consumed

end AlwaysConsumes

end Run

/-! ## The criterion -/

namespace Parser

/-- Whether it can be read off the parser that every success of it has consumed. -/
def isConsuming {α : Type} (p : Parser τ ρ ω α) : Bool :=
  match p with
  | satisfy _ _ => true
  | spelled tests _ => !tests.isEmpty
  | endOfInput => false
  | fail _ => true
  | value _ => false
  | position => false
  | recursive _ _ _ => false
  | shared p => p.isConsuming
  | adapt _ p => p.isConsuming
  | map _ p => p.isConsuming
  | observe _ p => p.isConsuming
  | map2 _ p q => p.isConsuming || q.isConsuming
  | map3 _ p q r => p.isConsuming || q.isConsuming || r.isConsuming
  | map4 _ p q r s => p.isConsuming || q.isConsuming || r.isConsuming || s.isConsuming
  | all _ ps => (List.ofFn fun i => (ps i).isConsuming).any id
  | bind _ p _ => p.isConsuming
  | choice _ ps => (List.ofFn fun i => (ps i).isConsuming).all id
  | negate _ _ => false
  | check _ _ p => p.isConsuming
  | withExpected _ p => p.isConsuming
  | lookahead _ => false
  | safe p => p.isConsuming
  | chain _ _ _ _ => true
  | separated _ p _ => p.isConsuming
  | optionallyTerminated _ p _ => p.isConsuming

theorem isConsuming_all_iff {n : Nat} {ps : Fin n → Parser τ ρ ω α} :
    (all n ps).isConsuming = true ↔ ∃ i, (ps i).isConsuming = true := by
  simp [isConsuming, List.mem_ofFn]

theorem isConsuming_choice_iff {n : Nat} {ps : Fin n → Parser τ ρ ω α} :
    (choice n ps).isConsuming = true ↔ ∀ i, (ps i).isConsuming = true := by
  simp [isConsuming, List.mem_ofFn]

/-- The bodies of all loops pass the test: of a list either the values or the separators. -/
def Productive {α : Type} (p : Parser τ ρ ω α) : Prop :=
  match p with
  | satisfy _ _ => True
  | spelled _ _ => True
  | endOfInput => True
  | fail _ => True
  | value _ => True
  | position => True
  | recursive _ _ _ => True
  | shared p => p.Productive
  | adapt _ p => p.Productive
  | map _ p => p.Productive
  | observe _ p => p.Productive
  | map2 _ p q => p.Productive ∧ q.Productive
  | map3 _ p q r => p.Productive ∧ q.Productive ∧ r.Productive
  | map4 _ p q r s => p.Productive ∧ q.Productive ∧ r.Productive ∧ s.Productive
  | all _ ps => ∀ i, (ps i).Productive
  | bind _ p next => p.Productive ∧ ∀ v, (next v).Productive
  | choice _ ps => ∀ i, (ps i).Productive
  | negate _ p => p.Productive
  | check _ _ p => p.Productive
  | withExpected _ p => p.Productive
  | lookahead p => p.Productive
  | safe p => p.Productive
  | chain _ _ _ p => p.isConsuming = true ∧ p.Productive
  | separated _ p separator =>
      (p.isConsuming = true ∨ separator.isConsuming = true) ∧ p.Productive ∧ separator.Productive
  | optionallyTerminated _ p separator =>
      (p.isConsuming = true ∨ separator.isConsuming = true) ∧ p.Productive ∧ separator.Productive

/-- A parser that passes the test always consumes. -/
theorem alwaysConsumes_eval_calls (ruler : Ruler τ) (rules : Rules τ ρ ω) (depth : Nat)
    {p : Parser τ ρ ω α} (hp : p.isConsuming = true) (copy : Nat) :
    (p.eval ruler (calls ruler rules depth) copy).AlwaysConsumes := by
  induction p generalizing copy with
  | satisfy accepts expected => exact .satisfy accepts expected
  | spelled tests expected => exact .spelled (.inr (by simpa [isConsuming] using hp))
  | fail message => exact .fail _ none message false false
  | endOfInput | value | position | recursive | negate | lookahead => cases hp
  | shared p ih => exact ih hp 0
  | adapt f p ih =>
      rw [eval_adapt]
      exact (ih hp copy).map f
  | map f p ih =>
      rw [eval_map]
      exact .component_last (.inr (ih hp copy))
  | observe remark p ih =>
      rw [eval_observe]
      exact .component fun _ _ h => .bind fun _ _ => .success (h (.inr (ih hp copy)))
  | map2 f p q ihp ihq =>
      rw [eval_map2]
      refine .component fun _ _ h => .component_last ?_
      simp only [isConsuming, Bool.or_eq_true] at hp
      rcases hp with hp | hq
      · exact .inl (h (.inr (ihp hp copy)))
      · exact .inr (ihq hq copy)
  | map3 f p q r ihp ihq ihr =>
      rw [eval_map3]
      refine .component fun _ _ h => .component fun _ _ h' => .component_last ?_
      simp only [isConsuming, Bool.or_eq_true] at hp
      rcases hp with (hp | hq) | hr
      · exact .inl (h' (.inl (h (.inr (ihp hp copy)))))
      · exact .inl (h' (.inr (ihq hq copy)))
      · exact .inr (ihr hr copy)
  | map4 f p q r s ihp ihq ihr ihs =>
      rw [eval_map4]
      refine .component fun _ _ h => .component fun _ _ h' => .component fun _ _ h'' =>
        .component_last ?_
      simp only [isConsuming, Bool.or_eq_true] at hp
      rcases hp with ((hp | hq) | hr) | hs
      · exact .inl (h'' (.inl (h' (.inl (h (.inr (ihp hp copy)))))))
      · exact .inl (h'' (.inl (h' (.inr (ihq hq copy)))))
      · exact .inl (h'' (.inr (ihr hr copy)))
      · exact .inr (ihs hs copy)
  | all n ps ih =>
      rw [eval_all]
      obtain ⟨i, hi⟩ := isConsuming_all_iff.1 hp
      exact .all (.inr ⟨_, List.mem_ofFn.2 ⟨i, rfl⟩, ih i hi copy⟩)
  | bind f p next ihp ihnext =>
      rw [eval_bind]
      exact .dependent (ihp hp copy)
  | choice n ps ih =>
      rw [eval_choice]
      refine .choice fun x hx => ?_
      obtain ⟨i, rfl⟩ := List.mem_ofFn.1 hx
      exact ih i (isConsuming_choice_iff.1 hp i) copy
  | check accepts message p ih =>
      rw [eval_check]
      exact .check (ih hp copy)
  | withExpected expected p ih =>
      rw [eval_withExpected]
      exact .component_last (.inr (ih hp copy))
  | safe p ih => exact .safe (ih hp copy)
  | chain name seed combine p ih =>
      exact .chain (moves_eval_calls ruler rules depth p copy)
        (couples_eval_calls (Coupling.byPlace ω ruler) rules depth p (fun _ => rfl) False)
  | separated name p separator ihp ihseparator => exact .separated (ihp hp copy)
  | optionallyTerminated name p separator ihp ihseparator =>
      exact .optionallyTerminated (ihp hp copy)

end Parser

end CommittedChoice
