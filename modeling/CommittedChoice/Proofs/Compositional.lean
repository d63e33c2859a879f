import CommittedChoice.Proofs.Consuming

set_option autoImplicit false

/-! # Properties that pass from parts to wholes

What a parser reports and how it can stop is made up of what its parts do: a parser only puts a few
kinds of steps one after another. `Run.Compositional ruler P` says that `P` is a property of this
kind. It holds of the steps, and a computation that goes on with the value of another has it if both
have it; there, only values that the first one can have need to be looked at.

Such a property holds of every parser (`Parser.compositional_eval_calls`). The step that needs care is
the fault of a loop. It is a step like the others, or else every loop of the grammar is productive and
the step is never taken.

Most such properties compare the world before with the answer and the world after. For these it is
enough to say what single steps do to the world (`Run.Stepwise.compositional`). -/

namespace CommittedChoice

variable {τ ω α β γ : Type} {ρ : Type → Type} {ruler : Ruler τ}

/-- An event that is reported in passing: it does not resolve anything, and the parse goes on. -/
def Event.isPassing : Event ω → Bool
  | alternativesFailed _ _ => true
  | ended _ _ => true
  | remark _ => true
  | _ => false

/-- A property of what computations report and of how they stop. It holds of the steps of which
    parsers are made, but for the fault of a loop, and of what is put together from them. -/
structure Run.Compositional (ruler : Ruler τ) (P : (α : Type) → Run τ ω α → Prop) : Prop where
  pure : ∀ {α : Type} (a : α), P α (Pure.pure a)
  bind : ∀ {α β : Type} {x : Run τ ω α} {f : α → Run τ ω β}, P α x →
    (∀ a, x.Returns a → P β (f a)) → P β (x >>= f)
  unfinished : ∀ {α : Type}, P α (Run.stop .unfinished)
  getState : P (State τ) Run.getState
  modifyState : ∀ f : State τ → State τ, P Unit (Run.modifyState f)
  emit : ∀ {event : Event ω}, event.isPassing = true → P Unit (Run.emit event)
  advance : P Unit (Run.advance ruler)
  resolve : ∀ (cell : Cell) (sharing : Sharing), P Nat (Run.resolve cell sharing)
  speculate : ∀ {α β : Type} {x : Run τ ω (Outcome α)} {finish : Outcome α → Run τ ω (Outcome β)},
    P (Outcome α) x → (∀ outcome, P (Outcome β) (finish outcome)) →
    P (Outcome β) (Run.speculate x finish)

/-- A property of the world before, the answer and the world after. It holds of single steps, but for
    the fault of a loop, and of one computation after another. -/
structure Run.Stepwise (Q : (α : Type) → World τ ω → Except Stop α → World τ ω → Prop) : Prop where
  refl : ∀ {α : Type} (a : α) (w : World τ ω), Q α w (.ok a) w
  trans : ∀ {α β : Type} {a : α} {r : Except Stop β} {w v u : World τ ω},
    Q α w (.ok a) v → Q β v r u → Q β w r u
  /-- Whoever runs a computation that stops, stops with it. -/
  stop : ∀ {α β : Type} {reason : Stop} {w v : World τ ω},
    Q α w (.error reason) v → Q β w (.error reason) v
  /-- A parse may stop at any time if the grammar is not at fault. -/
  halt : ∀ (reason : Stop), (∀ error, reason ≠ .fault error) →
    ∀ w : World τ ω, Q Unit w (.error reason) w
  setState : ∀ (w : World τ ω) (s : State τ), Q Unit w (.ok ()) { w with state := s }
  /-- A speculation that stops removes its bookmark. -/
  popBookmark : ∀ {α : Type} {reason : Stop} {w v : World τ ω}, Q α w (.error reason) v →
    Q α w (.error reason) { v with state := v.state.popBookmark }
  emit : ∀ {event : Event ω}, event.isPassing = true →
    ∀ w : World τ ω, Q Unit w (.ok ()) { w with events := event :: w.events }
  resolve : ∀ {cell : Cell} (sharing : Sharing) {w : World τ ω}, w.cells.target? cell = none →
    Q Unit w (.ok ()) { w with cells := (w.cells.resolve cell sharing).1,
                               events := .resolving cell :: w.events }

theorem Run.Stepwise.compositional
    {Q : (α : Type) → World τ ω → Except Stop α → World τ ω → Prop} (hQ : Stepwise Q)
    (ruler : Ruler τ) :
    Compositional ruler fun α (x : Run τ ω α) => ∀ w, Q α w (x.run w).1 (x.run w).2 where
  pure a w := hQ.refl a w
  bind {_ _ x f} hx hf w := by
    have hfirst := hx w
    rcases hrun : x.run w with ⟨reason | a, w₁⟩ <;> rw [hrun] at hfirst
    · rw [run_bind_of_error hrun]
      exact hQ.stop hfirst
    · rw [run_bind_of_ok hrun]
      exact hQ.trans hfirst (hf a ⟨w, w₁, hrun⟩ w₁)
  unfinished w := hQ.stop (hQ.halt .unfinished nofun w)
  getState w := hQ.refl w.state w
  modifyState f w := hQ.setState w (f w.state)
  emit hpassing w := hQ.emit hpassing w
  advance w := by
    rcases hnext : w.state.place.next? ruler with _ | q
    · rw [run_advance_of_none hnext]
      exact hQ.halt .overflow nofun w
    · rw [run_advance_of_some hnext]
      exact hQ.setState w _
  resolve cell sharing w := by
    rcases htarget : w.cells.target? cell with _ | k
    · rw [run_resolve_of_none htarget]
      exact hQ.trans (hQ.resolve sharing htarget) (hQ.refl _ _)
    · rw [run_resolve_of_some htarget]
      exact hQ.refl k w
  speculate {_ _ x finish} hx hfinish w := by
    have hfirst := hQ.trans (hQ.setState w w.state.pushBookmark)
      (hx { w with state := w.state.pushBookmark })
    simp only [Run.speculate]
    rcases hrun : x.run { w with state := w.state.pushBookmark } with ⟨reason | outcome, w₁⟩ <;>
      rw [hrun] at hfirst
    · -- nothing is finished after a stop, but the bookmark goes
      exact hQ.stop (hQ.popBookmark hfirst)
    · exact hQ.trans hfirst (hfinish outcome w₁)

namespace Run.Compositional

variable {P : (α : Type) → Run τ ω α → Prop} (hP : Compositional ruler P)

include hP

theorem after {x : Run τ ω α} {f : α → Run τ ω β} (hx : P α x) (hf : ∀ a, P β (f a)) :
    P β (x >>= f) := hP.bind hx fun a _ => hf a

theorem map {x : Run τ ω α} (hx : P α x) (f : α → β) : P β (x >>= fun a => Pure.pure (f a)) :=
  hP.after hx fun a => hP.pure (f a)

/-- Writes an error and fails. -/
theorem failWith (f : State τ → State τ) (consumed : Bool) :
    P (Outcome α) (Run.modifyState f >>= fun _ => Pure.pure (.failure consumed)) :=
  hP.map (hP.modifyState f) _

/-! ## Leaves -/

theorem satisfy (accepts : τ → Bool) (expected : List (Expected τ)) :
    P (Outcome τ) (Run.satisfy ruler accepts expected) := by
  refine hP.after hP.getState fun s => ?_
  split
  · exact hP.failWith _ false
  · split
    · exact hP.map hP.advance _
    · exact hP.failWith _ false

theorem spelled (expected : List (Expected τ)) (earlier : Bool) (tests : List (τ → Bool)) :
    P (Outcome (List τ)) (Run.spelled ruler expected earlier tests) := by
  induction tests generalizing earlier with
  | nil => exact hP.pure _
  | cons accepts tests ih =>
      refine hP.after hP.getState fun s => ?_
      split
      · exact hP.failWith _ earlier
      · split
        · exact hP.after hP.advance fun _ => hP.map (ih true) _
        · exact hP.failWith _ earlier

theorem endOfInput (expected : List (Expected τ)) :
    P (Outcome Unit) (Run.endOfInput expected) := by
  refine hP.after hP.getState fun s => ?_
  split
  · exact hP.pure _
  · exact hP.failWith _ false

/-! ## Sequences -/

theorem component {expected : List (Expected τ)} {earlier : Bool} {x : Run τ ω (Outcome α)}
    {next : α → Bool → Run τ ω (Outcome β)} (hx : P (Outcome α) x)
    (hnext : ∀ v consumed, P (Outcome β) (next v consumed)) :
    P (Outcome β) (Run.component expected earlier x next) := by
  refine hP.after hx fun outcome => ?_
  cases outcome with
  | success v consumed => exact hnext v (earlier || consumed)
  | failure consumed => exact hP.failWith _ (earlier || consumed)

theorem all {expected : List (Expected τ)} {earlier : Bool} {xs : List (Run τ ω (Outcome α))}
    (hxs : ∀ x ∈ xs, P (Outcome α) x) :
    P (Outcome (List α)) (Run.all expected earlier xs) := by
  induction xs generalizing earlier with
  | nil => exact hP.pure _
  | cons x xs ih =>
      have htail : ∀ y ∈ xs, P (Outcome α) y := fun y hy => hxs y (List.mem_cons_of_mem x hy)
      exact hP.component (hxs x List.mem_cons_self) fun _ _ => hP.map (ih htail) _

theorem dependent {f : α → β → γ} {x : Run τ ω (Outcome α)} {next : α → Run τ ω (Outcome β)}
    (hx : P (Outcome α) x) (hnext : ∀ v, P (Outcome β) (next v)) :
    P (Outcome γ) (Run.dependent f x next) := by
  refine hP.after hx fun outcome => ?_
  cases outcome with
  | success v consumed => exact hP.map (hnext v) _
  | failure consumed => exact hP.pure _

/-! ## Choice and conditions -/

theorem alternatives {exhausted : Option (ParseError τ) → Run τ ω (Outcome α)}
    {best : Option (ParseError τ)} {xs : List (Run τ ω (Outcome α))}
    (hxs : ∀ x ∈ xs, P (Outcome α) x) (hexhausted : ∀ e, P (Outcome α) (exhausted e)) :
    P (Outcome α) (Run.alternatives exhausted best xs) := by
  induction xs generalizing best with
  | nil => exact hexhausted best
  | cons x xs ih =>
      have htail : ∀ y ∈ xs, P (Outcome α) y := fun y hy => hxs y (List.mem_cons_of_mem x hy)
      refine hP.after (hxs x List.mem_cons_self) fun outcome => ?_
      split
      · exact hP.pure _
      · exact hP.after hP.getState fun _ => ih htail

theorem choice {expected : List (Expected τ)} {xs : List (Run τ ω (Outcome α))}
    (hxs : ∀ x ∈ xs, P (Outcome α) x) : P (Outcome α) (Run.choice expected xs) := by
  refine hP.alternatives hxs fun e => ?_
  cases e with
  | none => exact hP.failWith _ false
  | some error =>
      exact hP.after (hP.emit rfl) fun _ => hP.after (hP.modifyState _) fun _ =>
        hP.failWith _ false

theorem negate {expected : List (Expected τ)} {message : String} {x : Run τ ω (Outcome α)}
    (hx : P (Outcome α) x) : P (Outcome Unit) (Run.negate expected message x) := by
  refine hP.after hP.getState fun before => hP.after hx fun outcome => ?_
  cases outcome with
  | success v consumed => exact hP.failWith _ consumed
  | failure consumed => exact hP.pure _

theorem check {expected : List (Expected τ)} {accepts : α → Bool} {message : α → String}
    {x : Run τ ω (Outcome α)} (hx : P (Outcome α) x) :
    P (Outcome α) (Run.check expected accepts message x) := by
  refine hP.after hx fun outcome => ?_
  cases outcome with
  | success v consumed =>
      show P (Outcome α) (if accepts v then _ else _)
      split
      · exact hP.pure _
      · exact hP.failWith _ consumed
  | failure consumed => exact hP.pure _

/-! ## Speculation -/

theorem lookahead {x : Run τ ω (Outcome α)} (hx : P (Outcome α) x) :
    P (Outcome α) (Run.lookahead x) := by
  refine hP.speculate hx fun outcome => ?_
  cases outcome with
  | success v consumed => exact hP.map (hP.modifyState _) _
  | failure consumed => exact hP.failWith _ consumed

theorem safe {x : Run τ ω (Outcome α)} (hx : P (Outcome α) x) : P (Outcome α) (Run.safe x) := by
  refine hP.speculate hx fun outcome => ?_
  cases outcome with
  | success v consumed => exact hP.map (hP.modifyState _) _
  | failure consumed => exact hP.failWith _ false

/-! ## Repetition -/

theorem bound : P Nat Run.bound := hP.map hP.getState _

/-- A loop is at fault only if its body can succeed without consuming. -/
theorem rounds {loop : Loop} {name : String} {combine : β → α → β} {x : Run τ ω (Outcome α)}
    (hx : P (Outcome α) x)
    (hfault : ∀ v, x.Returns (.success v false) → P (Outcome β) (Run.loopFault loop name))
    (fuel : Nat) (acc : β) (consumed : Bool) (count : Nat) :
    P (Outcome β) (Run.rounds loop name combine x fuel acc consumed count) := by
  induction fuel generalizing acc consumed count with
  | zero => exact hP.unfinished
  | succ fuel ih =>
      refine hP.bind hx fun outcome houtcome => ?_
      rcases outcome with ⟨v, _ | _⟩ | _ | _
      · exact hfault v houtcome
      · exact ih (combine acc v) true (count + 1)
      · exact hP.map (hP.emit rfl) _
      · exact hP.pure _

theorem chain {name : String} {seed : β} {combine : β → α → β} {x : Run τ ω (Outcome α)}
    (hx : P (Outcome α) x)
    (hfault : ∀ v, x.Returns (.success v false) → P (Outcome β) (Run.loopFault .chain name)) :
    P (Outcome β) (Run.chain name seed combine x) := by
  refine hP.after hx fun outcome => ?_
  cases outcome with
  | success v consumed => exact hP.after hP.bound fun fuel => hP.rounds hx hfault fuel _ consumed 1
  | failure consumed => exact hP.pure _

theorem separated {name : String} {expected : List (Expected τ)} {x : Run τ ω (Outcome α)}
    {separator : Run τ ω (Outcome β)} (hx : P (Outcome α) x) (hseparator : P (Outcome β) separator)
    (hfault : ∀ v, (Run.continuation expected separator x).Returns (.success v false) →
      P (Outcome (List α)) (Run.loopFault .separated name)) :
    P (Outcome (List α)) (Run.separated name expected x separator) := by
  have hnext : P (Outcome α) (Run.continuation expected separator x) :=
    hP.component hseparator fun _ _ => hP.component hx fun _ _ => hP.pure _
  refine hP.after hx fun outcome => ?_
  cases outcome with
  | success v consumed =>
      exact hP.after hP.bound fun fuel => hP.map (hP.rounds hnext hfault fuel [v] consumed 1) _
  | failure consumed => exact hP.pure _

theorem optionallyTerminatedRounds {name : String} {x : Run τ ω (Outcome α)}
    {separator : Run τ ω (Outcome β)} (hx : P (Outcome α) x) (hseparator : P (Outcome β) separator)
    (hfault : ∀ u v, separator.Returns (.success u false) → x.Returns (.success v false) →
      P (Outcome (List α)) (Run.loopFault .optionallyTerminated name))
    (fuel : Nat) (found : List α) (consumed : Bool) :
    P (Outcome (List α))
      (Run.optionallyTerminatedRounds name x separator fuel found consumed) := by
  induction fuel generalizing found consumed with
  | zero => exact hP.unfinished
  | succ fuel ih =>
      refine hP.bind hseparator fun outcome hfirst => ?_
      rcases outcome with ⟨u, separatorConsumed⟩ | _ | _
      · refine hP.bind hx fun outcome hsecond => ?_
        rcases outcome with ⟨v, valueConsumed⟩ | _ | _
        · show P (Outcome (List α)) (if separatorConsumed || valueConsumed then _ else _)
          split
          · exact ih (v :: found) true
          · next hnone =>
              simp only [Bool.or_eq_true, not_or, Bool.not_eq_true] at hnone
              obtain ⟨rfl, rfl⟩ := hnone
              exact hfault u v hfirst hsecond
        · exact hP.map (hP.emit rfl) _
        · exact hP.pure _
      · exact hP.pure _
      · exact hP.pure _

theorem optionallyTerminated {name : String} {x : Run τ ω (Outcome α)}
    {separator : Run τ ω (Outcome β)} (hx : P (Outcome α) x) (hseparator : P (Outcome β) separator)
    (hfault : ∀ u v, separator.Returns (.success u false) → x.Returns (.success v false) →
      P (Outcome (List α)) (Run.loopFault .optionallyTerminated name)) :
    P (Outcome (List α)) (Run.optionallyTerminated name x separator) := by
  refine hP.after hx fun outcome => ?_
  cases outcome with
  | success v consumed =>
      exact hP.after hP.bound fun fuel =>
        hP.optionallyTerminatedRounds hx hseparator hfault fuel [v] consumed
  | failure consumed => exact hP.pure _

end Run.Compositional

/-! ## Parsers -/

namespace Parser

variable {P : (α : Type) → Run τ ω α → Prop}

/-- The loops of a parser are productive, or the property holds of the fault of a loop. -/
theorem compositional_eval (hP : Run.Compositional ruler P) {call : Calls τ ρ ω}
    (hcall : ∀ (β : Type) (rule : ρ β) (copy : Nat), P (Outcome β) (call β rule copy))
    (hconsuming : ∀ {β : Type} (q : Parser τ ρ ω β) (copy : Nat), q.isConsuming = true →
      (q.eval ruler call copy).AlwaysConsumes)
    {p : Parser τ ρ ω α}
    (hloops : p.Productive ∨
      ∀ (β : Type) (loop : Loop) (name : String), P (Outcome β) (Run.loopFault loop name))
    (copy : Nat) : P (Outcome α) (p.eval ruler call copy) := by
  induction p generalizing copy with
  | satisfy accepts expected => exact hP.satisfy accepts expected
  | spelled tests expected => exact hP.spelled expected false tests
  | endOfInput => exact hP.endOfInput _
  | fail message =>
      rw [eval_fail]
      exact hP.failWith _ false
  | value v => exact hP.pure _
  | position =>
      rw [eval_position]
      exact hP.map hP.getState _
  | recursive index sharing rule =>
      -- the rule may be entered in any copy, so `hcall` is for all of them
      rw [eval_recursive]
      exact hP.after (hP.resolve _ sharing) fun copy => hcall _ rule copy
  | shared p ih => exact ih hloops 0
  | adapt f p ih =>
      rw [eval_adapt]
      exact hP.map (ih hloops copy) _
  | map f p ih =>
      rw [eval_map]
      exact hP.component (ih hloops copy) fun _ _ => hP.pure _
  | observe remark p ih =>
      rw [eval_observe]
      exact hP.component (ih hloops copy) fun _ _ => hP.map (hP.emit rfl) _
  | map2 f p q ihp ihq =>
      rw [eval_map2]
      exact hP.component (ihp (hloops.imp_left (·.1)) copy) fun _ _ =>
        hP.component (ihq (hloops.imp_left (·.2)) copy) fun _ _ => hP.pure _
  | map3 f p q r ihp ihq ihr =>
      rw [eval_map3]
      exact hP.component (ihp (hloops.imp_left (·.1)) copy) fun _ _ =>
        hP.component (ihq (hloops.imp_left (·.2.1)) copy) fun _ _ =>
          hP.component (ihr (hloops.imp_left (·.2.2)) copy) fun _ _ => hP.pure _
  | map4 f p q r s ihp ihq ihr ihs =>
      rw [eval_map4]
      exact hP.component (ihp (hloops.imp_left (·.1)) copy) fun _ _ =>
        hP.component (ihq (hloops.imp_left (·.2.1)) copy) fun _ _ =>
          hP.component (ihr (hloops.imp_left (·.2.2.1)) copy) fun _ _ =>
            hP.component (ihs (hloops.imp_left (·.2.2.2)) copy) fun _ _ => hP.pure _
  | all n ps ih =>
      rw [eval_all]
      refine hP.all fun x hx => ?_
      obtain ⟨i, rfl⟩ := List.mem_ofFn.1 hx
      exact ih i (hloops.imp_left (· i)) copy
  | bind f p next ihp ihnext =>
      rw [eval_bind]
      exact hP.dependent (ihp (hloops.imp_left (·.1)) copy) fun v =>
        ihnext v (hloops.imp_left (·.2 v)) copy
  | choice n ps ih =>
      rw [eval_choice]
      refine hP.choice fun x hx => ?_
      obtain ⟨i, rfl⟩ := List.mem_ofFn.1 hx
      exact ih i (hloops.imp_left (· i)) copy
  | negate message p ih =>
      rw [eval_negate]
      exact hP.negate (ih hloops copy)
  | check accepts message p ih =>
      rw [eval_check]
      exact hP.check (ih hloops copy)
  | withExpected expected p ih =>
      rw [eval_withExpected]
      exact hP.component (ih hloops copy) fun _ _ => hP.pure _
  | lookahead p ih => exact hP.lookahead (ih hloops copy)
  | safe p ih => exact hP.safe (ih hloops copy)
  -- at a loop, a productive body cannot give the outcome at which the loop finds a fault
  | chain name seed combine p ih =>
      refine hP.chain (ih (hloops.imp_left (·.2)) copy) fun v hv => ?_
      rcases hloops with ⟨hbody, -⟩ | hfault
      · exact absurd hv ((hconsuming p copy hbody).not_returns v)
      · exact hfault _ .chain name
  | separated name p separator ihp ihseparator =>
      refine hP.separated (ihp (hloops.imp_left (·.2.1)) copy)
        (ihseparator (hloops.imp_left (·.2.2)) copy) fun v hv => ?_
      rcases hloops with ⟨hbody, -⟩ | hfault
      · have hnext := hbody.imp (hconsuming p copy) (hconsuming separator copy)
        exact absurd hv ((Run.AlwaysConsumes.continuation hnext).not_returns v)
      · exact hfault _ .separated name
  | optionallyTerminated name p separator ihp ihseparator =>
      refine hP.optionallyTerminated (ihp (hloops.imp_left (·.2.1)) copy)
        (ihseparator (hloops.imp_left (·.2.2)) copy) fun u v hu hv => ?_
      rcases hloops with ⟨hvalue | hseparator, -⟩ | hfault
      · exact absurd hv ((hconsuming p copy hvalue).not_returns v)
      · exact absurd hu ((hconsuming separator copy hseparator).not_returns u)
      · exact hfault _ .optionallyTerminated name

theorem compositional_calls (hP : Run.Compositional ruler P) {rules : Rules τ ρ ω}
    (hloops : (∀ (β : Type) (rule : ρ β), (rules β rule).Productive) ∨
      ∀ (β : Type) (loop : Loop) (name : String), P (Outcome β) (Run.loopFault loop name))
    (depth : Nat) {β : Type} (rule : ρ β) (copy : Nat) :
    P (Outcome β) (calls ruler rules depth β rule copy) := by
  induction depth generalizing β copy with
  | zero => exact hP.unfinished
  | succ depth ih =>
      exact compositional_eval hP (fun _ rule copy => ih rule copy)
        (fun _ copy hq => alwaysConsumes_eval_calls ruler rules depth hq copy)
        (hloops.imp_left (· β rule)) copy

theorem compositional_eval_calls (hP : Run.Compositional ruler P) {rules : Rules τ ρ ω}
    {p : Parser τ ρ ω α}
    (hloops : (∀ (β : Type) (rule : ρ β), (rules β rule).Productive) ∧ p.Productive ∨
      ∀ (β : Type) (loop : Loop) (name : String), P (Outcome β) (Run.loopFault loop name))
    (depth copy : Nat) : P (Outcome α) (p.eval ruler (calls ruler rules depth) copy) :=
  compositional_eval hP
    (fun _ rule copy => compositional_calls hP (hloops.imp_left (·.1)) depth rule copy)
    (fun _ copy hq => alwaysConsumes_eval_calls ruler rules depth hq copy)
    (hloops.imp_left (·.2)) copy

end Parser

end CommittedChoice
