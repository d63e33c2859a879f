import CommittedChoice.Proofs.Reachable

set_option autoImplicit false

/-! # The causes of errors

An error outlives the moment in which it was written. A speculation puts the place back and leaves
the error, a choice keeps the error of one alternative while it tries the others, a sequence
replaces the expectations and keeps the rest, and a negation reports the token that stood before
its attempt. What an error says about the input is its `Cause`: a position, perhaps a token, and
whether the input had ended. `Cause.TrueOf` says that all of this holds of one place, and
`Cause.TrueBehind` that the place lies at or behind the one where the parse started.

`Run.FailsTruly` says that every failure of a computation leaves such a cause. The part that
follows a failure may change the error, but not its cause (`Run.KeepsCause`), which is all that
the rule for one computation after another needs (`Run.FailsTruly.bind`). The main statement is
`Parser.exists_place_of_failure`. -/

namespace CommittedChoice

variable {τ ω α β γ : Type} {ruler : Ruler τ}

/-! ## Causes that are true of the input -/

/-- The cause describes the place: it has its position, a token that it names is the next one, and
    it speaks of the end of the input only if there is no token left, and then it names none. -/
structure Cause.TrueOf (cause : Cause τ) (q : Place τ) : Prop where
  position_eq : cause.position = q.position
  peek_eq : ∀ t, cause.unexpected = some t → q.peek = some t
  rest_eq_nil : cause.atEnd = true → q.rest = [] ∧ cause.unexpected = none

/-- The cause describes the place itself or one that lies behind it. -/
def Cause.TrueBehind (ruler : Ruler τ) (q : Place τ) (cause : Cause τ) : Prop :=
  ∃ ts q', q.Passes ruler ts q' ∧ cause.TrueOf q'

namespace Cause

variable {q q' : Place τ} {ts : List τ} {cause : Cause τ}

theorem TrueOf.behind (h : cause.TrueOf q) : cause.TrueBehind ruler q := ⟨[], q, .refl q, h⟩

theorem TrueBehind.of_passes (h : cause.TrueBehind ruler q') (hpass : q.Passes ruler ts q') :
    cause.TrueBehind ruler q := by
  obtain ⟨us, q'', hpass', htrue⟩ := h
  exact ⟨ts ++ us, q'', hpass.trans hpass', htrue⟩

/-- A cause that names no token and no end is true wherever it has the position. -/
theorem trueOf_of_position (q : Place τ) : (⟨none, q.position, false⟩ : Cause τ).TrueOf q :=
  ⟨rfl, nofun, nofun⟩

theorem trueOf_of_peek {unexpected : Option τ} (h : q.peek = unexpected) :
    (⟨unexpected, q.position, false⟩ : Cause τ).TrueOf q :=
  ⟨rfl, fun _ ht => h.trans ht, nofun⟩

theorem trueOf_of_end (h : q.peek = none) : (⟨none, q.position, true⟩ : Cause τ).TrueOf q :=
  ⟨rfl, nofun, fun _ => ⟨List.head?_eq_none_iff.1 h, rfl⟩⟩

end Cause

/-! ## Computations that fail truly -/

/-- Every failure of the computation leaves a cause that is true of the place where it started or of
    one behind it. -/
def Run.FailsTruly (ruler : Ruler τ) (x : Run τ ω (Outcome α)) : Prop :=
  ∀ ⦃w : World τ ω⦄ ⦃consumed : Bool⦄ ⦃w' : World τ ω⦄,
    x.run w = (.ok (.failure consumed), w') →
      w'.state.error.cause.TrueBehind ruler w.state.place

/-- A failure of the computation leaves the cause that was there before. -/
def Run.KeepsCause (x : Run τ ω (Outcome α)) : Prop :=
  ∀ ⦃w : World τ ω⦄ ⦃consumed : Bool⦄ ⦃w' : World τ ω⦄,
    x.run w = (.ok (.failure consumed), w') → w'.state.error.cause = w.state.error.cause

namespace Run

theorem KeepsCause.pure (outcome : Outcome α) :
    (Pure.pure outcome : Run τ ω (Outcome α)).KeepsCause := by
  intro w consumed w' hrun
  rw [run_pure] at hrun
  cases hrun
  rfl

theorem KeepsCause.forward (expected : List (Expected τ)) (consumed : Bool) :
    (Run.forward expected consumed : Run τ ω (Outcome α)).KeepsCause := by
  intro w consumed' w' hrun
  cases hrun
  rfl

theorem KeepsCause.emit {event : Event ω} {x : Run τ ω (Outcome α)} (hx : x.KeepsCause) :
    (Run.emit event >>= fun _ => x).KeepsCause := by
  intro w consumed w' hrun
  rw [run_bind_of_ok (run_emit event w)] at hrun
  have hkeep := hx hrun
  exact hkeep

namespace FailsTruly

variable {x : Run τ ω (Outcome α)}

theorem success (v : α) (consumed : Bool) :
    (Pure.pure (.success v consumed) : Run τ ω (Outcome α)).FailsTruly ruler := by
  intro w consumed' w' hrun
  cases hrun

theorem stop (reason : Stop) : (Run.stop reason : Run τ ω (Outcome α)).FailsTruly ruler := by
  intro w consumed w' hrun
  cases hrun

/-- One computation after another. A success leaves the second one behind the place where the first
    one started, and after a failure the cause is the one of the first. -/
theorem bind {f : Outcome α → Run τ ω (Outcome β)} (hx : x.FailsTruly ruler)
    (hmoves : x.Moves ruler false)
    (hsuccess : ∀ v consumed, (f (.success v consumed)).FailsTruly ruler)
    (hfailure : ∀ consumed, (f (.failure consumed)).KeepsCause) :
    (x >>= f).FailsTruly ruler := by
  intro w consumed w' hrun
  obtain ⟨outcome, w₁, hfirst, hrest⟩ := run_bind_eq_ok_iff.1 hrun
  cases outcome with
  | success v consumed₁ =>
      obtain ⟨ts, hpass, -, -⟩ := hmoves hfirst
      have htrue := hsuccess v consumed₁ hrest
      exact htrue.of_passes hpass
  | failure consumed₁ =>
      rw [hfailure consumed₁ hrest]
      exact hx hfirst

/-- A change of the outcome by which a success stays one. -/
theorem map {f : Outcome α → Outcome β} (hx : x.FailsTruly ruler)
    (hf : ∀ outcome, (f outcome).isSuccess = outcome.isSuccess) :
    (x >>= fun outcome => Pure.pure (f outcome)).FailsTruly ruler := by
  intro w consumed w' hrun
  obtain ⟨outcome, w₁, hfirst, hrest⟩ := run_bind_eq_ok_iff.1 hrun
  rw [run_pure] at hrest
  obtain ⟨houtcome, rfl⟩ := Prod.mk.inj hrest
  have hfailed : outcome.isSuccess = false := by
    rw [← hf outcome, Except.ok.inj houtcome]
    rfl
  cases outcome with
  | success v consumed₁ => cases hfailed
  | failure consumed₁ => exact hx hfirst

theorem of_still {x : Run τ ω α} {f : α → Run τ ω (Outcome β)} (hx : x.Still)
    (hf : ∀ a, (f a).FailsTruly ruler) : (x >>= f).FailsTruly ruler := by
  intro w consumed w' hrun
  obtain ⟨a, w₁, hfirst, hplace⟩ := hx w
  rw [run_bind_of_ok hfirst] at hrun
  rw [← hplace]
  exact hf a hrun

theorem advance (hx : x.FailsTruly ruler) :
    (Run.advance ruler >>= fun _ => x).FailsTruly ruler := by
  intro w consumed w' hrun
  rcases hnext : w.state.place.next? ruler with _ | q
  · rw [run_bind_of_error (run_advance_of_none hnext)] at hrun
    cases hrun
  · rw [run_bind_of_ok (run_advance_of_some hnext)] at hrun
    obtain ⟨ts, hpass⟩ := Place.exists_passes_of_next? hnext
    have htrue := hx hrun
    exact htrue.of_passes hpass

/-! ## Failing -/

/-- A failure that names no token and no end points at the place where it happens. -/
theorem fail (expected : List (Expected τ)) (message : String) (consumed : Bool) :
    (Run.fail expected none message consumed false : Run τ ω (Outcome α)).FailsTruly ruler := by
  intro w consumed' w' hrun
  cases hrun
  exact (Cause.trueOf_of_position w.state.place).behind

theorem loopFault (loop : Loop) (parser : String) :
    (Run.loopFault loop parser : Run τ ω (Outcome α)).FailsTruly ruler :=
  of_still .getState fun _ => of_still (.emit _) fun _ => stop _

/-! ## Leaves -/

theorem satisfy (accepts : τ → Bool) (expected : List (Expected τ)) :
    (Run.satisfy ruler accepts expected : Run τ ω (Outcome τ)).FailsTruly ruler := by
  intro w consumed w' hrun
  rw [Run.satisfy, run_bind_of_ok (run_getState w)] at hrun
  split at hrun
  · next hpeek =>
      cases hrun
      exact (Cause.trueOf_of_end hpeek).behind
  · next t hpeek =>
      split at hrun
      · exact advance (success t true) hrun
      · cases hrun
        exact (Cause.trueOf_of_peek hpeek).behind

theorem spelled (expected : List (Expected τ)) (tests : List (τ → Bool)) (earlier : Bool) :
    (Run.spelled ruler expected earlier tests : Run τ ω (Outcome (List τ))).FailsTruly ruler := by
  induction tests generalizing earlier with
  | nil => exact success [] earlier
  | cons accepts tests ih =>
      intro w consumed w' hrun
      rw [Run.spelled, run_bind_of_ok (run_getState w)] at hrun
      split at hrun
      · next hpeek =>
          cases hrun
          exact (Cause.trueOf_of_end hpeek).behind
      · next t hpeek =>
          split at hrun
          · exact advance (map (ih true) (Outcome.isSuccess_map _)) hrun
          · cases hrun
            exact (Cause.trueOf_of_peek hpeek).behind

theorem endOfInput (expected : List (Expected τ)) :
    (Run.endOfInput expected : Run τ ω (Outcome Unit)).FailsTruly ruler := by
  intro w consumed w' hrun
  rw [Run.endOfInput, run_bind_of_ok (run_getState w)] at hrun
  split at hrun
  · cases hrun
  · next t hpeek =>
      cases hrun
      exact (Cause.trueOf_of_peek hpeek).behind

/-! ## Sequences -/

theorem component {expected : List (Expected τ)} {earlier : Bool}
    {next : α → Bool → Run τ ω (Outcome β)} (hx : x.FailsTruly ruler) (hmoves : x.Moves ruler false)
    (hnext : ∀ v consumed, (next v consumed).FailsTruly ruler) :
    (Run.component expected earlier x next).FailsTruly ruler :=
  bind hx hmoves (fun v consumed => hnext v (earlier || consumed)) fun consumed =>
    .forward expected (earlier || consumed)

theorem all {expected : List (Expected τ)} {earlier : Bool} {xs : List (Run τ ω (Outcome α))}
    (hxs : ∀ x ∈ xs, x.FailsTruly ruler) (hmoves : ∀ x ∈ xs, x.Moves ruler false) :
    (Run.all expected earlier xs).FailsTruly ruler := by
  induction xs generalizing earlier with
  | nil => exact success [] earlier
  | cons x xs ih =>
      have htail (flag : Bool) : (Run.all expected flag xs).FailsTruly ruler :=
        ih (fun y hy => hxs y (List.mem_cons_of_mem x hy))
          (fun y hy => hmoves y (List.mem_cons_of_mem x hy))
      exact component (hxs x List.mem_cons_self) (hmoves x List.mem_cons_self) fun _ flag =>
        map (htail flag) (Outcome.isSuccess_map _)

theorem dependent {f : α → β → γ} {next : α → Run τ ω (Outcome β)} (hx : x.FailsTruly ruler)
    (hmoves : x.Moves ruler false) (hnext : ∀ v, (next v).FailsTruly ruler) :
    (Run.dependent f x next).FailsTruly ruler :=
  bind hx hmoves (fun v consumed => map (hnext v) fun outcome => by simp) fun consumed =>
    .pure (.failure consumed)

/-! ## Choice and conditions -/

/-- All alternatives start at the place `q`, because those that are not final have not moved. The
    furthest error so far is true behind `q`, and so is the one that takes its place. -/
theorem alternatives {exhausted : Option (ParseError τ) → Run τ ω (Outcome α)} {q : Place τ}
    (hexhausted : ∀ best : Option (ParseError τ), (∀ e ∈ best, e.cause.TrueBehind ruler q) →
      ∀ ⦃w consumed w'⦄, w.state.place = q →
        (exhausted best).run w = (.ok (.failure consumed), w') →
          w'.state.error.cause.TrueBehind ruler q)
    {xs : List (Run τ ω (Outcome α))} (hxs : ∀ x ∈ xs, x.FailsTruly ruler)
    (hmoves : ∀ x ∈ xs, x.Moves ruler false) {best : Option (ParseError τ)}
    (hbest : ∀ e ∈ best, e.cause.TrueBehind ruler q) {w : World τ ω} {consumed : Bool}
    {w' : World τ ω} (hplace : w.state.place = q)
    (hrun : (Run.alternatives exhausted best xs).run w = (.ok (.failure consumed), w')) :
    w'.state.error.cause.TrueBehind ruler q := by
  induction xs generalizing best w with
  | nil => exact hexhausted best hbest hplace hrun
  | cons x xs ih =>
      obtain ⟨outcome, w₁, hfirst, hrest⟩ := run_bind_eq_ok_iff.1 hrun
      rcases outcome with ⟨v, flag⟩ | flag
      · cases hrest
      · have htrue : w₁.state.error.cause.TrueBehind ruler q := by
          rw [← hplace]
          exact hxs x List.mem_cons_self hfirst
        cases flag with
        | true =>
            cases hrest
            exact htrue
        | false =>
            have hstay := (hmoves x List.mem_cons_self).place_eq hfirst rfl
            refine ih (fun y hy => hxs y (List.mem_cons_of_mem x hy))
              (fun y hy => hmoves y (List.mem_cons_of_mem x hy)) ?_ (hstay.trans hplace) hrest
            -- the furthest error is the one before or the one just written
            intro e he
            obtain rfl := Option.mem_some.1 he
            cases best with
            | none => exact htrue
            | some error =>
                simp only [further]
                split
                · exact htrue
                · exact hbest error rfl

theorem choice {expected : List (Expected τ)} {xs : List (Run τ ω (Outcome α))}
    (hxs : ∀ x ∈ xs, x.FailsTruly ruler) (hmoves : ∀ x ∈ xs, x.Moves ruler false) :
    (Run.choice expected xs).FailsTruly ruler := by
  intro w consumed w' hrun
  have hnone : ∀ e ∈ (none : Option (ParseError τ)), e.cause.TrueBehind ruler w.state.place := by
    intro e he
    cases he
  refine alternatives (fun best hbest u flag u' hplace hend => ?_) hxs hmoves hnone rfl hrun
  cases best with
  | none =>
      have htrue : u'.state.error.cause.TrueBehind ruler u.state.place :=
        fail expected noAlternativeMessage false hend
      rwa [hplace] at htrue
  | some error =>
      cases hend
      exact hbest error rfl

/-- A negation fails with the token and the position that it has looked at before. -/
theorem negate {expected : List (Expected τ)} {message : String} {x : Run τ ω (Outcome α)} :
    (Run.negate expected message x).FailsTruly ruler := by
  intro w consumed w' hrun
  rw [Run.negate, run_bind_of_ok (run_getState w)] at hrun
  obtain ⟨outcome, w₁, -, hrest⟩ := run_bind_eq_ok_iff.1 hrun
  cases outcome with
  | success v flag =>
      cases hrest
      exact (Cause.trueOf_of_peek rfl).behind
  | failure flag => cases hrest

theorem check {expected : List (Expected τ)} {accepts : α → Bool} {message : α → String}
    (hx : x.FailsTruly ruler) (hmoves : x.Moves ruler false) :
    (Run.check expected accepts message x).FailsTruly ruler := by
  refine bind hx hmoves (fun v consumed => ?_) fun consumed => .pure (.failure consumed)
  show (if accepts v then _ else _ : Run τ ω (Outcome α)).FailsTruly ruler
  split
  · exact success v consumed
  · exact fail expected (message v) consumed

/-! ## Speculation -/

/-- The bookmark does not change the place, and `finish` leaves the error of a failure alone. -/
theorem speculate {finish : Outcome α → Run τ ω (Outcome β)} (hx : x.FailsTruly ruler)
    (hsuccess : ∀ v consumed w, ∃ b flag w',
      (finish (.success v consumed)).run w = (.ok (.success b flag), w'))
    (hfailure : ∀ consumed, (finish (.failure consumed)).KeepsCause) :
    (Run.speculate x finish).FailsTruly ruler := by
  intro w consumed w' hrun
  simp only [Run.speculate] at hrun
  rcases hbody : x.run { w with state := w.state.pushBookmark } with
    ⟨reason | ⟨v, flag⟩ | flag, w₁⟩
  · rw [hbody] at hrun
    cases hrun
  · rw [hbody] at hrun
    obtain ⟨b, flag', w₂, hend⟩ := hsuccess v flag w₁
    have hcontra : (finish (.success v flag)).run w₁ = (.ok (.failure consumed), w') := hrun
    rw [hend] at hcontra
    cases hcontra
  · rw [hbody] at hrun
    have htrue := hx hbody
    rw [hfailure flag hrun]
    exact htrue

theorem lookahead (hx : x.FailsTruly ruler) : (Run.lookahead x).FailsTruly ruler := by
  refine speculate hx (fun v consumed w => ⟨v, false, _, rfl⟩) fun consumed w flag w' hrun => ?_
  cases hrun
  rfl

theorem safe (hx : x.FailsTruly ruler) : (Run.safe x).FailsTruly ruler := by
  refine speculate hx (fun v consumed w => ⟨v, consumed, _, rfl⟩) fun consumed w flag w' hrun => ?_
  cases hrun
  rw [State.error_rewind]

/-! ## Repetition -/

theorem rounds {loop : Loop} {name : String} {combine : β → α → β} (hx : x.FailsTruly ruler)
    (hmoves : x.Moves ruler false) (fuel : Nat) (acc : β) (consumed : Bool) (count : Nat) :
    (Run.rounds loop name combine x fuel acc consumed count).FailsTruly ruler := by
  induction fuel generalizing acc consumed count with
  | zero => exact stop .unfinished
  | succ fuel ih =>
      refine bind hx hmoves (fun v flag => ?_) fun flag => ?_
      · cases flag with
        | false => exact loopFault loop name
        | true => exact ih (combine acc v) true (count + 1)
      · cases flag with
        | false => exact .emit (.pure _)
        | true => exact .pure _

theorem chain {name : String} {seed : β} {combine : β → α → β} (hx : x.FailsTruly ruler)
    (hmoves : x.Moves ruler false) : (Run.chain name seed combine x).FailsTruly ruler :=
  bind hx hmoves (fun _ consumed => of_still .bound fun fuel => rounds hx hmoves fuel _ consumed 1)
    fun _ => .pure _

theorem continuation {expected : List (Expected τ)} {separator : Run τ ω (Outcome β)}
    (hx : x.FailsTruly ruler) (hmoves : x.Moves ruler false)
    (hseparator : separator.FailsTruly ruler) (hmoves' : separator.Moves ruler false) :
    (Run.continuation expected separator x).FailsTruly ruler :=
  component hseparator hmoves' fun _ _ => component hx hmoves success

theorem separated {name : String} {expected : List (Expected τ)} {separator : Run τ ω (Outcome β)}
    (hx : x.FailsTruly ruler) (hmoves : x.Moves ruler false)
    (hseparator : separator.FailsTruly ruler) (hmoves' : separator.Moves ruler false) :
    (Run.separated name expected x separator).FailsTruly ruler := by
  refine bind hx hmoves (fun v consumed => of_still .bound fun fuel => ?_) fun _ => .pure _
  have hnext : (Run.continuation expected separator x).FailsTruly ruler :=
    continuation hx hmoves hseparator hmoves'
  exact map (rounds hnext (.continuation hmoves hmoves') fuel [v] consumed 1)
    (Outcome.isSuccess_map _)

theorem optionallyTerminatedRounds {name : String} {separator : Run τ ω (Outcome β)}
    (hx : x.FailsTruly ruler) (hmoves : x.Moves ruler false)
    (hseparator : separator.FailsTruly ruler) (hmoves' : separator.Moves ruler false)
    (fuel : Nat) (found : List α) (consumed : Bool) :
    (Run.optionallyTerminatedRounds name x separator fuel found consumed).FailsTruly ruler := by
  induction fuel generalizing found consumed with
  | zero => exact stop .unfinished
  | succ fuel ih =>
      refine bind hseparator hmoves' (fun u separatorConsumed => ?_) fun separatorConsumed => ?_
      · refine bind hx hmoves (fun v valueConsumed => ?_) fun valueConsumed => ?_
        · show (if separatorConsumed || valueConsumed then _ else _ :
            Run τ ω (Outcome (List α))).FailsTruly ruler
          split
          · exact ih (v :: found) true
          · exact loopFault .optionallyTerminated name
        · cases valueConsumed with
          | false => exact .emit (.pure _)
          | true => exact .pure _
      · cases separatorConsumed with
        | false => exact .pure _
        | true => exact .pure _

theorem optionallyTerminated {name : String} {separator : Run τ ω (Outcome β)}
    (hx : x.FailsTruly ruler) (hmoves : x.Moves ruler false)
    (hseparator : separator.FailsTruly ruler) (hmoves' : separator.Moves ruler false) :
    (Run.optionallyTerminated name x separator).FailsTruly ruler :=
  bind hx hmoves (fun v consumed => of_still .bound fun fuel =>
    optionallyTerminatedRounds hx hmoves hseparator hmoves' fuel [v] consumed) fun _ => .pure _

end FailsTruly

end Run

/-! ## Parsers -/

namespace Parser

variable {ρ : Type → Type}

theorem failsTruly_eval {call : Calls τ ρ ω}
    (hcall : ∀ (β : Type) (rule : ρ β) (copy : Nat), (call β rule copy).FailsTruly ruler)
    (hmoves : ∀ (β : Type) (q : Parser τ ρ ω β) (copy : Nat),
      (q.eval ruler call copy).Moves ruler false)
    (p : Parser τ ρ ω α) (copy : Nat) : (p.eval ruler call copy).FailsTruly ruler := by
  induction p generalizing copy with
  | satisfy accepts expected => exact .satisfy accepts expected
  | spelled tests expected => exact .spelled expected tests false
  | endOfInput => exact .endOfInput _
  | fail message => exact .fail _ message false
  | value v => exact .success v false
  | position =>
      rw [eval_position]
      exact .of_still .getState fun _ => .success _ false
  | recursive index sharing rule =>
      rw [eval_recursive]
      exact .of_still (.resolve _ sharing) fun copy => hcall _ rule copy
  | shared p ih => exact ih 0
  | adapt f p ih =>
      rw [eval_adapt]
      exact .map (ih copy) (Outcome.isSuccess_map f)
  | map f p ih =>
      rw [eval_map]
      exact .component (ih copy) (hmoves _ p copy) fun _ _ => .success _ _
  | observe remark p ih =>
      rw [eval_observe]
      exact .component (ih copy) (hmoves _ p copy) fun _ _ =>
        .of_still (.emit _) fun _ => .success _ _
  | map2 f p q ihp ihq =>
      rw [eval_map2]
      exact .component (ihp copy) (hmoves _ p copy) fun _ _ =>
        .component (ihq copy) (hmoves _ q copy) fun _ _ => .success _ _
  | map3 f p q r ihp ihq ihr =>
      rw [eval_map3]
      exact .component (ihp copy) (hmoves _ p copy) fun _ _ =>
        .component (ihq copy) (hmoves _ q copy) fun _ _ =>
        .component (ihr copy) (hmoves _ r copy) fun _ _ => .success _ _
  | map4 f p q r s ihp ihq ihr ihs =>
      rw [eval_map4]
      exact .component (ihp copy) (hmoves _ p copy) fun _ _ =>
        .component (ihq copy) (hmoves _ q copy) fun _ _ =>
        .component (ihr copy) (hmoves _ r copy) fun _ _ =>
        .component (ihs copy) (hmoves _ s copy) fun _ _ => .success _ _
  | all n ps ih =>
      rw [eval_all]
      refine .all (fun x hx => ?_) fun x hx => ?_
      · obtain ⟨i, rfl⟩ := List.mem_ofFn.1 hx
        exact ih i copy
      · obtain ⟨i, rfl⟩ := List.mem_ofFn.1 hx
        exact hmoves _ (ps i) copy
  | bind f p next ihp ihnext =>
      rw [eval_bind]
      exact .dependent (ihp copy) (hmoves _ p copy) fun v => ihnext v copy
  | choice n ps ih =>
      rw [eval_choice]
      refine .choice (fun x hx => ?_) fun x hx => ?_
      · obtain ⟨i, rfl⟩ := List.mem_ofFn.1 hx
        exact ih i copy
      · obtain ⟨i, rfl⟩ := List.mem_ofFn.1 hx
        exact hmoves _ (ps i) copy
  | negate message p ih =>
      rw [eval_negate]
      exact .negate
  | check accepts message p ih =>
      rw [eval_check]
      exact .check (ih copy) (hmoves _ p copy)
  | withExpected expected p ih =>
      rw [eval_withExpected]
      exact .component (ih copy) (hmoves _ p copy) fun _ _ => .success _ _
  | lookahead p ih => exact .lookahead (ih copy)
  | safe p ih => exact .safe (ih copy)
  | chain name seed combine p ih => exact .chain (ih copy) (hmoves _ p copy)
  | separated name p separator ihp ihseparator =>
      exact .separated (ihp copy) (hmoves _ p copy) (ihseparator copy) (hmoves _ separator copy)
  | optionallyTerminated name p separator ihp ihseparator =>
      exact .optionallyTerminated (ihp copy) (hmoves _ p copy) (ihseparator copy)
        (hmoves _ separator copy)

theorem failsTruly_calls (ruler : Ruler τ) (rules : Rules τ ρ ω) (depth : Nat) {β : Type}
    (rule : ρ β) (copy : Nat) : (calls ruler rules depth β rule copy).FailsTruly ruler := by
  induction depth generalizing β copy with
  | zero => exact .stop .unfinished
  | succ depth ih =>
      exact failsTruly_eval (fun _ rule copy => ih rule copy)
        (fun _ q copy => moves_eval_calls ruler rules depth q copy) _ copy

theorem failsTruly_eval_calls (ruler : Ruler τ) (rules : Rules τ ρ ω) (depth : Nat)
    (p : Parser τ ρ ω α) (copy : Nat) :
    (p.eval ruler (calls ruler rules depth) copy).FailsTruly ruler :=
  failsTruly_eval (fun _ rule copy => failsTruly_calls ruler rules depth rule copy)
    (fun _ q copy => moves_eval_calls ruler rules depth q copy) p copy

/-- **Errors tell the truth.** If a parser fails from a reachable state, there is a place between
    two tokens of the input, not before the cursor where the parser started, that the error
    describes: the position of the error is the fold over the tokens before that place, a token
    that the error names is the one found there, and if the error speaks of the end of the input,
    then no token is left there and the error names none. -/
theorem exists_place_of_failure {input : Input τ} {s : State τ} (hs : State.Reachable input s)
    {rules : Rules τ ρ ω} {depth : Nat} {p : Parser τ ρ ω α} {copy : Nat} {events : List (Event ω)}
    {cells : Cells} {consumed : Bool} {w : World τ ω}
    (hrun : (p.eval input.ruler (calls input.ruler rules depth) copy).run ⟨s, events, cells⟩ =
      (.ok (.failure consumed), w)) :
    ∃ past rest, input.tokens = past ++ rest ∧ s.cursor ≤ input.ruler.extent past ∧
      input.ruler.positionAfter input.start past = some w.state.error.position ∧
      (∀ t, w.state.error.cause.unexpected = some t →
        tokenAt input.ruler.width input.tokens (input.ruler.extent past) =
          some (t, input.ruler.width t)) ∧
      (w.state.error.cause.atEnd = true →
        rest = [] ∧ w.state.error.cause.unexpected = none) := by
  obtain ⟨ts, q, hpass, htrue⟩ := failsTruly_eval_calls input.ruler rules depth p copy hrun
  obtain ⟨past, hpast⟩ : q.LiesIn input := hs.liesIn.place.passes hpass
  have hextent : q.cursor = input.ruler.extent past := hpast.cursor.trans (Nat.zero_add _)
  refine ⟨past, q.rest, hpast.rest, ?_, ?_, fun t ht => ?_, htrue.rest_eq_nil⟩
  · have hcursor : q.cursor = s.cursor + input.ruler.extent ts := hpass.cursor
    omega
  · have hposition : w.state.error.position = q.position := htrue.position_eq
    rw [hposition]
    exact hpast.position
  · have hpeek : q.peek = some t := htrue.peek_eq t ht
    have htoken := Place.LiesIn.tokenAt_eq ⟨past, hpast⟩
    rwa [hextent, hpeek] at htoken

/-- A literal that fails at its second token has gone back to the start, and its error still
    describes the place behind the first token. -/
theorem exists_place_of_failure_after_rewind :
    let input : Input Char := ⟨['é', 'c'], Ruler.ofString (TextLayout.next {}), .first⟩
    let p : Parser Char (fun _ => Empty) Unit (List Char) := safe (tokens ['é', 'b'])
    ∃ w, (p.eval input.ruler (calls input.ruler (fun _ => Empty.elim) 0) 0).run
        ⟨input.initialState, [], .empty⟩ = (.ok (.failure false), w) ∧
      w.state.cursor = 0 ∧ w.state.error.cause.unexpected = some 'c' ∧
      ∃ past rest, input.tokens = past ++ rest ∧
        input.ruler.positionAfter input.start past = some w.state.error.position ∧
        tokenAt input.ruler.width input.tokens (input.ruler.extent past) = some ('c', 1) := by
  intro input p
  have hrun : (p.eval input.ruler (calls input.ruler (fun _ => Empty.elim) 0) 0).run
      ⟨input.initialState, [], .empty⟩ = (.ok (.failure false), _) := rfl
  obtain ⟨past, rest, htokens, -, hposition, htoken, -⟩ := exists_place_of_failure .initial hrun
  exact ⟨_, hrun, rfl, rfl, past, rest, htokens, hposition, htoken 'c' rfl⟩

end Parser

end CommittedChoice
