import CommittedChoice.Proofs.Consumption

set_option autoImplicit false

/-! # Computations that finish

The meaning of recursive rules is bounded by a depth, and a computation that reaches the bound stops
as unfinished. Where the bound is not reached it does not matter: `Run.AgreesAt w x y` says that `x`
finishes at `w` and that `y`, which may have another bound, does the same there.

How far recursion goes depends on the tokens that are left, so agreement is kept up to a number of
tokens (`Run.AgreesUpTo`). Behind a part that always consumes (`Run.AlwaysConsumes`) one token less
is left, and the parts that follow need to agree only up to fewer tokens: that is what the bound `m`
in `Run.AgreesUpTo.component` and `Run.AgreesUpTo.all` is for. The loops finish without a bound of
their own, because every round but the last leaves fewer tokens than it found. -/

namespace CommittedChoice

variable {τ ω α β γ : Type} {ruler : Ruler τ}

namespace Run

/-- The computation never runs out of depth. -/
def Finishes (x : Run τ ω α) : Prop := ∀ w, (x.run w).1 ≠ .error .unfinished

/-- At `w` the first computation finishes, and the second one does the same. -/
def AgreesAt (w : World τ ω) (x y : Run τ ω α) : Prop :=
  (x.run w).1 ≠ .error .unfinished ∧ y.run w = x.run w

/-- The computations agree wherever at most `n` tokens are left. -/
def AgreesUpTo (n : Nat) (x y : Run τ ω α) : Prop :=
  ∀ w, w.state.place.rest.length ≤ n → x.AgreesAt w y

/-- Every success of the computation has consumed. -/
def AlwaysConsumes (x : Run τ ω (Outcome α)) : Prop :=
  ∀ ⦃w : World τ ω⦄ ⦃v : α⦄ ⦃consumed : Bool⦄ ⦃w' : World τ ω⦄,
    x.run w = (.ok (.success v consumed), w') → consumed = true

/-! ## Computations without recursion -/

namespace Finishes

theorem pure (a : α) : (Pure.pure a : Run τ ω α).Finishes := fun _ => nofun

theorem fault (error : GrammarError) : (Run.stop (.fault error) : Run τ ω α).Finishes :=
  fun _ => nofun

theorem of_still {x : Run τ ω α} (hx : x.Still) : x.Finishes := by
  intro w
  obtain ⟨a, w', hrun, -⟩ := hx w
  rw [hrun]
  intro h
  cases h

theorem bind {x : Run τ ω α} {f : α → Run τ ω β} (hx : x.Finishes) (hf : ∀ a, (f a).Finishes) :
    (x >>= f).Finishes := by
  intro w
  have hw := hx w
  rcases hrun : x.run w with ⟨_ | a, w'⟩
  · rw [run_bind_of_error hrun]
    rw [hrun] at hw
    exact fun h => hw (by rw [Except.error.inj h])
  · rw [run_bind_of_ok hrun]
    exact hf a w'

theorem modifyState (f : State τ → State τ) : (Run.modifyState f : Run τ ω Unit).Finishes :=
  fun _ => nofun

theorem advance (ruler : Ruler τ) : (Run.advance ruler : Run τ ω Unit).Finishes := by
  intro w
  simp only [Run.advance]
  split <;> intro h <;> cases h

theorem fail (expected : List (Expected τ)) (unexpected : Option τ) (message : String)
    (consumed atEnd : Bool) :
    (Run.fail expected unexpected message consumed atEnd : Run τ ω (Outcome α)).Finishes :=
  bind (modifyState _) fun _ => pure _

theorem failAtEnd (expected : List (Expected τ)) (consumed : Bool) :
    (Run.failAtEnd expected consumed : Run τ ω (Outcome α)).Finishes :=
  bind (modifyState _) fun _ => pure _

theorem failAtToken (expected : List (Expected τ)) (t : τ) (consumed : Bool) :
    (Run.failAtToken expected t consumed : Run τ ω (Outcome α)).Finishes :=
  bind (modifyState _) fun _ => pure _

theorem forward (expected : List (Expected τ)) (consumed : Bool) :
    (Run.forward expected consumed : Run τ ω (Outcome α)).Finishes :=
  bind (modifyState _) fun _ => pure _

theorem loopFault (loop : Loop) (parser : String) :
    (Run.loopFault loop parser : Run τ ω α).Finishes :=
  bind (of_still .getState) fun _ => bind (of_still (.emit _)) fun _ => fault _

theorem satisfy (accepts : τ → Bool) (expected : List (Expected τ)) :
    (Run.satisfy ruler accepts expected : Run τ ω (Outcome τ)).Finishes := by
  refine bind (of_still .getState) fun s => ?_
  split
  · exact failAtEnd expected false
  · split
    · exact bind (advance ruler) fun _ => pure _
    · exact failAtToken expected _ false

theorem spelled (expected : List (Expected τ)) (tests : List (τ → Bool)) (earlier : Bool) :
    (Run.spelled ruler expected earlier tests : Run τ ω (Outcome (List τ))).Finishes := by
  induction tests generalizing earlier with
  | nil => exact pure _
  | cons accepts tests ih =>
      refine bind (of_still .getState) fun s => ?_
      split
      · exact failAtEnd expected earlier
      · split
        · exact bind (advance ruler) fun _ => bind (ih true) fun _ => pure _
        · exact failAtToken expected _ earlier

theorem endOfInput (expected : List (Expected τ)) :
    (Run.endOfInput expected : Run τ ω (Outcome Unit)).Finishes := by
  refine bind (of_still .getState) fun s => ?_
  split
  · exact pure _
  · exact fail expected _ _ false false

end Finishes

theorem AlwaysConsumes.satisfy (accepts : τ → Bool) (expected : List (Expected τ)) :
    (Run.satisfy ruler accepts expected : Run τ ω (Outcome τ)).AlwaysConsumes := by
  intro w v consumed w' hrun
  obtain ⟨s, w₁, -, hrest⟩ := run_bind_eq_ok_iff.1 hrun
  split at hrest
  · cases hrest
  · split at hrest
    · obtain ⟨-, w₂, -, hdone⟩ := run_bind_eq_ok_iff.1 hrest
      cases hdone
      rfl
    · cases hrest

/-! ## Agreement at a place -/

namespace AgreesAt

variable {w : World τ ω}

theorem of_finishes {x : Run τ ω α} (hx : x.Finishes) : x.AgreesAt w x := ⟨hx w, rfl⟩

theorem bind {x y : Run τ ω α} {f g : α → Run τ ω β} (hx : x.AgreesAt w y)
    (hf : ∀ a w', x.run w = (.ok a, w') → (f a).AgreesAt w' (g a)) :
    (x >>= f).AgreesAt w (y >>= g) := by
  obtain ⟨hfinish, heq⟩ := hx
  rcases hrun : x.run w with ⟨_ | a, w'⟩
  · rw [hrun] at hfinish heq
    unfold AgreesAt
    rw [run_bind_of_error hrun, run_bind_of_error heq]
    exact ⟨fun h => hfinish (by rw [Except.error.inj h]), rfl⟩
  · rw [hrun] at heq
    unfold AgreesAt
    rw [run_bind_of_ok hrun, run_bind_of_ok heq]
    exact hf a w' hrun

/-- A loop that starts at `w` gets one round more than tokens are left there. -/
theorem bound {f g : Nat → Run τ ω α}
    (h : (f (w.state.place.rest.length + 1)).AgreesAt w (g (w.state.place.rest.length + 1))) :
    (Run.bound >>= f).AgreesAt w (Run.bound >>= g) := h

end AgreesAt

/-! ## Agreement up to a number of tokens -/

namespace AgreesUpTo

variable {n : Nat} {x y : Run τ ω (Outcome α)}

theorem of_finishes {x : Run τ ω α} (hx : x.Finishes) : x.AgreesUpTo n x :=
  fun _ _ => .of_finishes hx

theorem mono {x y : Run τ ω α} {m : Nat} (hx : x.AgreesUpTo n y) (hm : m ≤ n) :
    x.AgreesUpTo m y := fun w hw => hx w (Nat.le_trans hw hm)

theorem of_still {x : Run τ ω α} {f g : α → Run τ ω β} (hx : x.Still)
    (hf : ∀ a, (f a).AgreesUpTo n (g a)) : (x >>= f).AgreesUpTo n (x >>= g) := by
  intro w hw
  refine AgreesAt.bind (.of_finishes (.of_still hx)) fun a w' hrun => hf a w' ?_
  obtain ⟨a', w'', hrun', hplace⟩ := hx w
  rw [hrun] at hrun'
  obtain ⟨-, rfl⟩ := Prod.mk.inj hrun'
  rw [hplace]
  exact hw

theorem map {x y : Run τ ω α} (hx : x.AgreesUpTo n y) (f : α → β) :
    (x >>= fun a => Pure.pure (f a)).AgreesUpTo n (y >>= fun a => Pure.pure (f a)) :=
  fun w hw => (hx w hw).bind fun _ _ _ => .of_finishes (.pure _)

/-- One computation after another. Fewer tokens are left for the second one behind a success of a
    computation that always consumes. -/
theorem bind {f g : Outcome α → Run τ ω (Outcome β)} (hx : x.AgreesUpTo n y)
    (hmoves : x.Moves ruler false)
    (hf : ∀ outcome m, m ≤ n → (x.AlwaysConsumes → outcome.isSuccess = true → m < n) →
      (f outcome).AgreesUpTo m (g outcome)) :
    (x >>= f).AgreesUpTo n (y >>= g) := by
  intro w hw
  refine (hx w hw).bind fun outcome w' hrun => ?_
  have hle := hmoves.length_rest_le hrun
  refine hf outcome w'.state.place.rest.length (by omega) (fun hconsumes hsuccess => ?_) w'
    (Nat.le_refl _)
  cases outcome with
  | success v consumed =>
      -- a success of a computation that always consumes has passed a token
      have hlt := hmoves.length_rest_lt hrun (hconsumes hrun)
      omega
  | failure consumed => cases hsuccess

/-! ## Sequences -/

theorem component {expected : List (Expected τ)} {earlier : Bool}
    {next next' : α → Bool → Run τ ω (Outcome β)} (hx : x.AgreesUpTo n y)
    (hmoves : x.Moves ruler false)
    (hnext : ∀ v consumed m, m ≤ n → (x.AlwaysConsumes → m < n) →
      (next v consumed).AgreesUpTo m (next' v consumed)) :
    (Run.component expected earlier x next).AgreesUpTo n
      (Run.component expected earlier y next') := by
  refine bind hx hmoves fun outcome m hm hlt => ?_
  cases outcome with
  | success v consumed =>
      exact hnext v (earlier || consumed) m hm fun hconsumes => hlt hconsumes rfl
  | failure consumed => exact of_finishes (.forward expected (earlier || consumed))

/-- The last component of a sequence. -/
theorem component_last {expected : List (Expected τ)} {earlier : Bool}
    {next : α → Bool → Run τ ω (Outcome β)} (hx : x.AgreesUpTo n y) (hmoves : x.Moves ruler false)
    (hnext : ∀ v consumed, (next v consumed).Finishes) :
    (Run.component expected earlier x next).AgreesUpTo n
      (Run.component expected earlier y next) :=
  component hx hmoves fun v consumed _ _ _ => of_finishes (hnext v consumed)

theorem all {expected : List (Expected τ)} {earlier : Bool} {size : Nat}
    {xs ys : Fin size → Run τ ω (Outcome α)} (hmoves : ∀ i, (xs i).Moves ruler false)
    (hxs : ∀ i m, m ≤ n → ((∃ j, j < i ∧ (xs j).AlwaysConsumes) → m < n) →
      (xs i).AgreesUpTo m (ys i)) :
    (Run.all expected earlier (List.ofFn xs)).AgreesUpTo n
      (Run.all expected earlier (List.ofFn ys)) := by
  induction size generalizing n earlier with
  | zero =>
      rw [List.ofFn_zero, List.ofFn_zero]
      exact of_finishes (.pure _)
  | succ size ih =>
      rw [List.ofFn_succ, List.ofFn_succ]
      have hhead : (xs 0).AgreesUpTo n (ys 0) := by
        refine hxs 0 n (Nat.le_refl n) ?_
        rintro ⟨j, hj, -⟩
        exact absurd hj (Fin.not_lt_zero j)
      refine component hhead (hmoves 0) fun v consumed m hm hlt => ?_
      refine map (ih (fun i => hmoves i.succ) fun i k hk hearlier => ?_) _
      refine hxs i.succ k (by omega) ?_
      rintro ⟨j, hj, hconsumes⟩
      -- the part that always consumes is the head or one of the parts behind it
      cases j using Fin.cases with
      | zero =>
          have := hlt hconsumes
          omega
      | succ j =>
          have := hearlier ⟨j, Fin.succ_lt_succ_iff.1 hj, hconsumes⟩
          omega

theorem dependent {f : α → β → γ} {next next' : α → Run τ ω (Outcome β)}
    (hx : x.AgreesUpTo n y) (hmoves : x.Moves ruler false)
    (hnext : ∀ v m, m ≤ n → (x.AlwaysConsumes → m < n) →
      (next v).AgreesUpTo m (next' v)) :
    (Run.dependent f x next).AgreesUpTo n (Run.dependent f y next') := by
  refine bind hx hmoves fun outcome m hm hlt => ?_
  cases outcome with
  | success v consumed => exact (hnext v m hm fun hconsumes => hlt hconsumes rfl).map _
  | failure consumed => exact of_finishes (.pure _)

/-! ## Choice and conditions -/

theorem alternatives {exhausted exhausted' : Option (ParseError τ) → Run τ ω (Outcome α)}
    {best : Option (ParseError τ)} {size : Nat} {xs ys : Fin size → Run τ ω (Outcome α)}
    (hmoves : ∀ i, (xs i).Moves ruler false) (hxs : ∀ i, (xs i).AgreesUpTo n (ys i))
    (hexhausted : ∀ e, (exhausted e).AgreesUpTo n (exhausted' e)) :
    (Run.alternatives exhausted best (List.ofFn xs)).AgreesUpTo n
      (Run.alternatives exhausted' best (List.ofFn ys)) := by
  induction size generalizing n best with
  | zero =>
      rw [List.ofFn_zero, List.ofFn_zero]
      exact hexhausted best
  | succ size ih =>
      rw [List.ofFn_succ, List.ofFn_succ]
      refine bind (hxs 0) (hmoves 0) fun outcome m hm _ => ?_
      split
      · exact of_finishes (.pure _)
      · exact of_still .getState fun _ =>
          ih (fun i => hmoves i.succ) (fun i => (hxs i.succ).mono hm) fun e => (hexhausted e).mono hm

theorem choice {expected : List (Expected τ)} {size : Nat} {xs ys : Fin size → Run τ ω (Outcome α)}
    (hmoves : ∀ i, (xs i).Moves ruler false) (hxs : ∀ i, (xs i).AgreesUpTo n (ys i)) :
    (Run.choice expected (List.ofFn xs)).AgreesUpTo n (Run.choice expected (List.ofFn ys)) := by
  refine alternatives hmoves hxs fun e => ?_
  cases e with
  | none => exact of_finishes (.fail expected none _ false false)
  | some error =>
      rw [List.length_ofFn, List.length_ofFn]
      exact of_finishes (.bind (.of_still (.emit _)) fun _ =>
        .bind (.modifyState _) fun _ => .forward expected false)

theorem negate {expected : List (Expected τ)} {message : String} (hx : x.AgreesUpTo n y)
    (hmoves : x.Moves ruler false) :
    (Run.negate expected message x).AgreesUpTo n (Run.negate expected message y) := by
  refine of_still .getState fun before => bind hx hmoves fun outcome m _ _ => of_finishes ?_
  cases outcome with
  | success v consumed => exact .bind (.modifyState _) fun _ => .pure _
  | failure consumed => exact .pure _

theorem check {expected : List (Expected τ)} {accepts : α → Bool} {message : α → String}
    (hx : x.AgreesUpTo n y) (hmoves : x.Moves ruler false) :
    (Run.check expected accepts message x).AgreesUpTo n
      (Run.check expected accepts message y) := by
  refine bind hx hmoves fun outcome m _ _ => of_finishes ?_
  cases outcome with
  | success v consumed =>
      show (if accepts v then _ else _ : Run τ ω (Outcome α)).Finishes
      split
      · exact .pure _
      · exact .fail expected none (message v) consumed false
  | failure consumed => exact .pure _

/-! ## Speculation -/

theorem speculate {finish : Outcome α → Run τ ω (Outcome β)} (hx : x.AgreesUpTo n y)
    (hfinish : ∀ outcome, (finish outcome).Finishes) :
    (Run.speculate x finish).AgreesUpTo n (Run.speculate y finish) := by
  intro w hw
  -- the bookmark does not change how many tokens are left
  obtain ⟨hend, heq⟩ := hx { w with state := w.state.pushBookmark } hw
  simp only [AgreesAt, Run.speculate, heq, and_true]
  rcases hrun : x.run { w with state := w.state.pushBookmark } with ⟨_ | outcome, w'⟩
  · rw [hrun] at hend
    exact fun h => hend (by rw [Except.error.inj h])
  · exact hfinish outcome w'

theorem lookahead (hx : x.AgreesUpTo n y) :
    (Run.lookahead x).AgreesUpTo n (Run.lookahead y) := by
  refine speculate hx fun outcome => ?_
  cases outcome with
  | success v consumed => exact .bind (.modifyState _) fun _ => .pure _
  | failure consumed => exact .bind (.modifyState _) fun _ => .pure _

theorem safe (hx : x.AgreesUpTo n y) : (Run.safe x).AgreesUpTo n (Run.safe y) := by
  refine speculate hx fun outcome => ?_
  cases outcome with
  | success v consumed => exact .bind (.modifyState _) fun _ => .pure _
  | failure consumed => exact .bind (.modifyState _) fun _ => .pure _

/-! ## Repetition -/

/-- A loop with more rounds than tokens are left is not cut short: the round that goes on has read a
    token, so the next one again has more rounds than tokens. -/
theorem rounds {loop : Loop} {name : String} {combine : β → α → β} (hx : x.AgreesUpTo n y)
    (hmoves : x.Moves ruler false) (fuel : Nat) (acc : β) (consumed : Bool) (count : Nat)
    {w : World τ ω} (hw : w.state.place.rest.length ≤ n)
    (hfuel : w.state.place.rest.length < fuel) :
    (Run.rounds loop name combine x fuel acc consumed count).AgreesAt w
      (Run.rounds loop name combine y fuel acc consumed count) := by
  induction fuel generalizing acc consumed count w with
  | zero => exact absurd hfuel (Nat.not_lt_zero _)
  | succ fuel ih =>
      refine (hx w hw).bind fun outcome w' hrun => ?_
      rcases outcome with ⟨v, _ | _⟩ | _ | _
      · exact .of_finishes (.loopFault loop name)
      · have hlt := hmoves.length_rest_lt hrun rfl
        exact ih (combine acc v) true (count + 1) (by omega) (by omega)
      · exact .of_finishes (.bind (.of_still (.emit _)) fun _ => .pure _)
      · exact .of_finishes (.pure _)

theorem chain {name : String} {seed : β} {combine : β → α → β} (hx : x.AgreesUpTo n y)
    (hmoves : x.Moves ruler false) :
    (Run.chain name seed combine x).AgreesUpTo n (Run.chain name seed combine y) := by
  intro w hw
  refine (hx w hw).bind fun outcome w' hrun => ?_
  have hle := hmoves.length_rest_le hrun
  cases outcome with
  | success v consumed =>
      exact .bound (rounds hx hmoves _ _ consumed 1 (by omega) (Nat.lt_succ_self _))
  | failure consumed => exact .of_finishes (.pure _)

theorem continuation {expected : List (Expected τ)} {separator separator' : Run τ ω (Outcome β)}
    (hx : x.AgreesUpTo n y) (hmoves : x.Moves ruler false)
    (hseparator : separator.AgreesUpTo n separator') (hmoves' : separator.Moves ruler false) :
    (Run.continuation expected separator x).AgreesUpTo n
      (Run.continuation expected separator' y) :=
  component hseparator hmoves' fun _ _ _ hm _ =>
    component_last (hx.mono hm) hmoves fun _ _ => .pure _

theorem separated {name : String} {expected : List (Expected τ)}
    {separator separator' : Run τ ω (Outcome β)} (hx : x.AgreesUpTo n y)
    (hmoves : x.Moves ruler false) (hseparator : separator.AgreesUpTo n separator')
    (hmoves' : separator.Moves ruler false) :
    (Run.separated name expected x separator).AgreesUpTo n
      (Run.separated name expected y separator') := by
  intro w hw
  refine (hx w hw).bind fun outcome w' hrun => ?_
  have hle := hmoves.length_rest_le hrun
  cases outcome with
  | success v consumed =>
      refine .bound (.bind ?_ fun _ _ _ => .of_finishes (.pure _))
      exact rounds (continuation hx hmoves hseparator hmoves') (.continuation hmoves hmoves') _ [v]
        consumed 1 (by omega) (Nat.lt_succ_self _)
  | failure consumed => exact .of_finishes (.pure _)

theorem optionallyTerminatedRounds {name : String} {separator separator' : Run τ ω (Outcome β)}
    (hx : x.AgreesUpTo n y) (hmoves : x.Moves ruler false)
    (hseparator : separator.AgreesUpTo n separator') (hmoves' : separator.Moves ruler false)
    (fuel : Nat) (found : List α) (consumed : Bool) {w : World τ ω}
    (hw : w.state.place.rest.length ≤ n) (hfuel : w.state.place.rest.length < fuel) :
    (Run.optionallyTerminatedRounds name x separator fuel found consumed).AgreesAt w
      (Run.optionallyTerminatedRounds name y separator' fuel found consumed) := by
  induction fuel generalizing found consumed w with
  | zero => exact absurd hfuel (Nat.not_lt_zero _)
  | succ fuel ih =>
      refine (hseparator w hw).bind fun outcome w₁ hfirst => ?_
      have hle₁ := hmoves'.length_rest_le hfirst
      rcases outcome with ⟨u, separatorConsumed⟩ | _ | _
      · refine (hx w₁ (by omega)).bind fun outcome w₂ hsecond => ?_
        have hle₂ := hmoves.length_rest_le hsecond
        rcases outcome with ⟨v, valueConsumed⟩ | _ | _
        · show (if separatorConsumed || valueConsumed then _ else _ :
            Run τ ω (Outcome (List α))).AgreesAt w₂
              (if separatorConsumed || valueConsumed then _ else _)
          split
          · next hsome =>
              have hlt := hmoves'.length_rest_lt_of_or hmoves hfirst hsecond hsome
              exact ih (v :: found) true (by omega) (by omega)
          · exact .of_finishes (.loopFault .optionallyTerminated name)
        · exact .of_finishes (.bind (.of_still (.emit _)) fun _ => .pure _)
        · exact .of_finishes (.pure _)
      · exact .of_finishes (.pure _)
      · exact .of_finishes (.pure _)

theorem optionallyTerminated {name : String} {separator separator' : Run τ ω (Outcome β)}
    (hx : x.AgreesUpTo n y) (hmoves : x.Moves ruler false)
    (hseparator : separator.AgreesUpTo n separator') (hmoves' : separator.Moves ruler false) :
    (Run.optionallyTerminated name x separator).AgreesUpTo n
      (Run.optionallyTerminated name y separator') := by
  intro w hw
  refine (hx w hw).bind fun outcome w' hrun => ?_
  have hle := hmoves.length_rest_le hrun
  cases outcome with
  | success v consumed =>
      exact .bound (optionallyTerminatedRounds hx hmoves hseparator hmoves' _ [v] consumed
        (by omega) (Nat.lt_succ_self _))
  | failure consumed => exact .of_finishes (.pure _)

end AgreesUpTo

end Run

end CommittedChoice
