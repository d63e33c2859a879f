import CommittedChoice.Parser.Eval

set_option autoImplicit false

/-! # Expectations foreseen

What a parser expects is read off its description, before anything runs. What an error expects is
whatever the last failing parser wrote into it, and it may be written over many times on the way up.
For many parsers the two are the same, and this can be read off the parser as well.

Leaves and sequences write their expectations into the error of every failure, as do negations and
parsers with given expectations (`Parser.announcesAll`). It does not matter what their parts do. A
choice writes them only if no alternative has consumed. A lookahead, a chain or a list writes nothing:
a failure that did not consume is that of its first value, whose expectations it takes for its own,
because a loop in its later rounds takes such a failure for its end (`Parser.announces`). The main
statement is `Parser.error_expected_of_failure`. -/

namespace CommittedChoice

variable {τ ω α β : Type} {ρ : Type → Type}

namespace Run

/-! ## Failures with given expectations -/

/-- Failures whose flag is in scope leave an error with these expectations. -/
def FailsExpecting (scope : Bool → Prop) (expected : List (Expected τ))
    (x : Run τ ω (Outcome α)) : Prop :=
  ∀ ⦃w consumed w'⦄, x.run w = (.ok (.failure consumed), w') → scope consumed →
    w'.state.error.expected = expected

namespace FailsExpecting

variable {scope : Bool → Prop} {expected : List (Expected τ)} {x : Run τ ω (Outcome α)}

theorem success (v : α) (consumed : Bool) :
    FailsExpecting scope expected (pure (.success v consumed) : Run τ ω (Outcome α)) := by
  intro w flag w' hrun
  cases hrun

theorem failure {consumed : Bool} (hconsumed : ¬ scope consumed) :
    FailsExpecting scope expected (pure (.failure consumed) : Run τ ω (Outcome α)) := by
  intro w flag w' hrun hflag
  cases hrun
  exact absurd hflag hconsumed

theorem stop (reason : Stop) :
    FailsExpecting scope expected (Run.stop reason : Run τ ω (Outcome α)) := by
  intro w flag w' hrun
  cases hrun

/-- If whatever comes last fails as it should, then it does not matter what was before. -/
theorem last {y : Run τ ω β} {f : β → Run τ ω (Outcome α)}
    (hf : ∀ b, FailsExpecting scope expected (f b)) : FailsExpecting scope expected (y >>= f) := by
  intro w flag w' hrun
  obtain ⟨b, w₁, -, hrest⟩ := run_bind_eq_ok_iff.1 hrun
  exact hf b hrest

/-- Failures that are passed on, and successes after which the rest fails as it should. -/
theorem passOn {f : Outcome α → Run τ ω (Outcome β)} (hx : FailsExpecting scope expected x)
    (hsuccess : ∀ v consumed, FailsExpecting scope expected (f (.success v consumed)))
    (hfailure : ∀ consumed, f (.failure consumed) = pure (.failure consumed)) :
    FailsExpecting scope expected (x >>= f) := by
  intro w flag w' hrun hflag
  obtain ⟨outcome, w₁, hfirst, hrest⟩ := run_bind_eq_ok_iff.1 hrun
  cases outcome with
  | success v consumed => exact hsuccess v consumed hrest hflag
  | failure consumed =>
      rw [hfailure] at hrest
      cases hrest
      exact hx hfirst hflag

theorem map (hx : FailsExpecting scope expected x) (f : α → β) :
    FailsExpecting scope expected (do return (← x).map f) :=
  passOn hx (fun v consumed => success (f v) consumed) fun _ => rfl

/-- Writes an error with the expectations and fails. -/
theorem record (f : State τ → State τ) (hf : ∀ s, (f s).error.expected = expected)
    (consumed : Bool) :
    FailsExpecting scope expected
      (modifyState f >>= fun _ => pure (.failure consumed) : Run τ ω (Outcome α)) := by
  intro w flag w' hrun _
  cases hrun
  exact hf w.state

theorem loopFault (loop : Loop) (name : String) :
    FailsExpecting scope expected (Run.loopFault loop name : Run τ ω (Outcome α)) :=
  last fun _ => last fun _ => stop _

/-! ## Leaves -/

theorem satisfy (ruler : Ruler τ) (accepts : τ → Bool) :
    FailsExpecting scope expected
      (Run.satisfy ruler accepts expected : Run τ ω (Outcome τ)) := by
  refine last fun s => ?_
  split
  · exact record (·.failAtEnd expected) (fun _ => rfl) false
  · next t _ =>
      split
      · exact last fun _ => success t true
      · exact record (·.failAtToken expected t) (fun _ => rfl) false

theorem spelled (ruler : Ruler τ) (earlier : Bool) (tests : List (τ → Bool)) :
    FailsExpecting scope expected
      (Run.spelled ruler expected earlier tests : Run τ ω (Outcome (List τ))) := by
  induction tests generalizing earlier with
  | nil => exact success [] earlier
  | cons accepts tests ih =>
      refine last fun s => ?_
      split
      · exact record (·.failAtEnd expected) (fun _ => rfl) earlier
      · next t _ =>
          split
          · exact last fun _ => map (ih true) (t :: ·)
          · exact record (·.failAtToken expected t) (fun _ => rfl) earlier

theorem endOfInput :
    FailsExpecting scope expected (Run.endOfInput expected : Run τ ω (Outcome Unit)) := by
  refine last fun s => ?_
  split
  · exact success () false
  · next t _ => exact record (·.fail expected (some t) notEndedMessage false) (fun _ => rfl) false

/-! ## Sequences and conditions -/

/-- The failure of a component is reported with the expectations of the whole, whatever it was. -/
theorem component {earlier : Bool} {x : Run τ ω (Outcome α)}
    {next : α → Bool → Run τ ω (Outcome β)}
    (hnext : ∀ v consumed, FailsExpecting scope expected (next v consumed)) :
    FailsExpecting scope expected (Run.component expected earlier x next) := by
  refine last fun outcome => ?_
  cases outcome with
  | success v consumed => exact hnext v (earlier || consumed)
  | failure consumed => exact record (·.forward expected) (fun _ => rfl) (earlier || consumed)

theorem all (earlier : Bool) (xs : List (Run τ ω (Outcome α))) :
    FailsExpecting scope expected (Run.all expected earlier xs) := by
  induction xs generalizing earlier with
  | nil => exact success [] earlier
  | cons x xs ih => exact component fun v consumed => map (ih consumed) _

theorem negate (message : String) (x : Run τ ω (Outcome α)) :
    FailsExpecting scope expected (Run.negate expected message x) := by
  refine last fun before => last fun outcome => ?_
  cases outcome with
  | success v consumed =>
      intro w flag w' hrun _
      cases hrun
      rfl
  | failure consumed => exact success () consumed

/-! ## Choice -/

/-- An alternative that decides has succeeded or consumed; so a failure that did not consume is that
    of the end. -/
theorem alternatives {exhausted : Option (ParseError τ) → Run τ ω (Outcome α)}
    (hexhausted : ∀ best, FailsExpecting (· = false) expected (exhausted best))
    (best : Option (ParseError τ)) (xs : List (Run τ ω (Outcome α))) :
    FailsExpecting (· = false) expected (Run.alternatives exhausted best xs) := by
  induction xs generalizing best with
  | nil => exact hexhausted best
  | cons x xs ih =>
      refine last fun outcome => ?_
      rcases outcome with ⟨v, consumed⟩ | _ | _
      · exact success v consumed
      · exact last fun s => ih _
      · exact failure (by decide)

theorem choice (xs : List (Run τ ω (Outcome α))) :
    FailsExpecting (· = false) expected (Run.choice expected xs) := by
  refine alternatives (fun best => ?_) none xs
  cases best with
  | none => exact record (·.fail expected none noAlternativeMessage false) (fun _ => rfl) false
  | some error =>
      exact last fun _ => last fun _ => record (·.forward expected) (fun _ => rfl) false

/-! ## Lookahead -/

theorem lookahead (hx : FailsExpecting scope expected x) :
    FailsExpecting scope expected (Run.lookahead x) := by
  intro w flag w' hrun hflag
  simp only [Run.lookahead, speculate] at hrun
  rcases hbody : x.run { w with state := w.state.pushBookmark } with
    ⟨reason | ⟨v, consumed⟩ | consumed, w₁⟩ <;>
    rw [hbody] at hrun <;> cases hrun
  exact (hx hbody hflag : w₁.state.error.expected = expected)

/-! ## Repetition -/

/-- A round that fails without consuming ends the loop, so that the loop does not fail so. -/
theorem rounds (loop : Loop) (name : String) (combine : β → α → β) (x : Run τ ω (Outcome α))
    (fuel : Nat) (acc : β) (consumed : Bool) (count : Nat) :
    FailsExpecting (· = false) expected
      (Run.rounds loop name combine x fuel acc consumed count) := by
  induction fuel generalizing acc consumed count with
  | zero => exact stop .unfinished
  | succ fuel ih =>
      refine last fun outcome => ?_
      rcases outcome with ⟨v, _ | _⟩ | _ | _
      · exact loopFault loop name
      · exact ih (combine acc v) true (count + 1)
      · exact last fun _ => success acc consumed
      · exact failure (by decide)

theorem chain (hx : FailsExpecting (· = false) expected x) (name : String) (seed : β)
    (combine : β → α → β) :
    FailsExpecting (· = false) expected (Run.chain name seed combine x) :=
  passOn hx
    (fun v consumed => last fun fuel => rounds .chain name combine x fuel (combine seed v) consumed 1)
    fun _ => rfl

theorem separated (hx : FailsExpecting (· = false) expected x) (name : String)
    (next : List (Expected τ)) (separator : Run τ ω (Outcome β)) :
    FailsExpecting (· = false) expected (Run.separated name next x separator) :=
  passOn hx (fun v consumed => last fun fuel => map (rounds .separated name _ _ fuel [v] consumed 1) _)
    fun _ => rfl

theorem optionallyTerminatedRounds (name : String) (x : Run τ ω (Outcome α))
    (separator : Run τ ω (Outcome β)) (fuel : Nat) (found : List α) (consumed : Bool) :
    FailsExpecting (· = false) expected
      (Run.optionallyTerminatedRounds name x separator fuel found consumed) := by
  induction fuel generalizing found consumed with
  | zero => exact stop .unfinished
  | succ fuel ih =>
      refine last fun outcome => ?_
      rcases outcome with ⟨u, separatorConsumed⟩ | _ | _
      · refine last fun outcome => ?_
        rcases outcome with ⟨v, valueConsumed⟩ | _ | _
        · show FailsExpecting _ _ (if separatorConsumed || valueConsumed then _ else _)
          split
          · exact ih (v :: found) true
          · exact loopFault .optionallyTerminated name
        · exact last fun _ => success _ _
        · exact failure (by decide)
      · exact success _ consumed
      · exact failure (by decide)

theorem optionallyTerminated (hx : FailsExpecting (· = false) expected x) (name : String)
    (separator : Run τ ω (Outcome β)) :
    FailsExpecting (· = false) expected (Run.optionallyTerminated name x separator) :=
  passOn hx (fun v consumed => last fun fuel =>
    optionallyTerminatedRounds name x separator fuel [v] consumed) fun _ => rfl

end FailsExpecting

end Run

/-! ## Parsers that foresee their errors -/

namespace Parser

/-- Whether the parser is a leaf, a sequence, a negation or a parser with given expectations. The
    parts may be any parsers. -/
def announcesAll {α : Type} (p : Parser τ ρ ω α) : Bool :=
  match p with
  | satisfy _ _ | spelled _ _ | endOfInput | fail _ | value _ | position => true
  | map _ _ | observe _ _ | map2 _ _ _ | map3 _ _ _ _ | map4 _ _ _ _ _ | all _ _ => true
  | negate _ _ | withExpected _ _ => true
  | shared p => p.announcesAll
  | adapt _ p => p.announcesAll
  | recursive _ _ _ | bind _ _ _ | choice _ _ | check _ _ _ => false
  | lookahead _ | safe _ | chain _ _ _ _ | separated _ _ _ | optionallyTerminated _ _ _ => false

/-- Whether the parser is one of those, or a choice of any parsers, or is made of these by lookahead
    and repetition, where the separators of a list may be any parsers. -/
def announces {α : Type} (p : Parser τ ρ ω α) : Bool :=
  match p with
  | satisfy _ _ | spelled _ _ | endOfInput | fail _ | value _ | position => true
  | map _ _ | observe _ _ | map2 _ _ _ | map3 _ _ _ _ | map4 _ _ _ _ _ | all _ _ => true
  | negate _ _ | withExpected _ _ => true
  | choice _ _ => true
  | shared p => p.announces
  | adapt _ p => p.announces
  | lookahead p => p.announces
  | chain _ _ _ p => p.announces
  | separated _ p _ => p.announces
  | optionallyTerminated _ p _ => p.announces
  | recursive _ _ _ | bind _ _ _ | check _ _ _ | safe _ => false

variable {ruler : Ruler τ} {call : Calls τ ρ ω}

theorem failsExpecting_of_announcesAll (scope : Bool → Prop) {p : Parser τ ρ ω α}
    (hp : p.announcesAll = true) (copy : Nat) :
    (p.eval ruler call copy).FailsExpecting scope p.expected := by
  induction p generalizing copy with
  | satisfy accepts expected => exact .satisfy ruler accepts
  | spelled tests expected => exact .spelled ruler false tests
  | endOfInput => exact .endOfInput
  | fail message =>
      rw [eval_fail]
      exact .record (·.fail [.noInput] none message false) (fun _ => rfl) false
  | value v => exact .success v false
  | position =>
      rw [eval_position]
      exact .last fun s => .success s.position false
  | shared p ih => exact ih hp 0
  | adapt f p ih => exact (ih hp copy).map f
  | map f p =>
      rw [eval_map]
      exact .component fun _ _ => .success _ _
  | observe remark p =>
      rw [eval_observe]
      exact .component fun _ _ => .last fun _ => .success _ _
  | map2 f p q =>
      rw [eval_map2]
      exact .component fun _ _ => .component fun _ _ => .success _ _
  | map3 f p q r =>
      rw [eval_map3]
      exact .component fun _ _ => .component fun _ _ => .component fun _ _ => .success _ _
  | map4 f p q r s =>
      rw [eval_map4]
      exact .component fun _ _ => .component fun _ _ => .component fun _ _ =>
        .component fun _ _ => .success _ _
  | all n ps => exact .all false _
  | negate message p => exact .negate message _
  | withExpected expected p =>
      rw [eval_withExpected]
      exact .component fun _ _ => .success _ _
  | recursive | bind | choice | check | lookahead | safe | chain | separated
  | optionallyTerminated => cases hp

theorem failsExpecting_of_announces {p : Parser τ ρ ω α} (hp : p.announces = true) (copy : Nat) :
    (p.eval ruler call copy).FailsExpecting (· = false) p.expected := by
  induction p generalizing copy with
  | satisfy | spelled | endOfInput | fail | value | position | map | observe | map2 | map3 | map4
  | all | negate | withExpected => exact failsExpecting_of_announcesAll _ rfl copy
  | choice n ps => exact .choice _
  | shared p ih => exact ih hp 0
  | adapt f p ih => exact (ih hp copy).map f
  | lookahead p ih => exact (ih hp copy).lookahead
  | chain name seed combine p ih => exact (ih hp copy).chain name seed combine
  | separated name p separator ih => exact (ih hp copy).separated name _ _
  | optionallyTerminated name p separator ih => exact (ih hp copy).optionallyTerminated name _
  | recursive | bind | check | safe => cases hp

/-- **Expectations are foreseen.** If a parser that announces its errors fails without consuming, then
    the error expects what the parser expects, and if it announces all of them, then it is the same
    for every failure. This is so from every world and whatever the rules are. -/
theorem error_expected_of_failure {p : Parser τ ρ ω α} {copy : Nat} {w w' : World τ ω}
    {consumed : Bool} (hrun : (p.eval ruler call copy).run w = (.ok (.failure consumed), w')) :
    (p.announces = true → consumed = false → w'.state.error.expected = p.expected) ∧
    (p.announcesAll = true → w'.state.error.expected = p.expected) :=
  ⟨fun hp hconsumed => failsExpecting_of_announces hp copy hrun hconsumed,
    fun hp => failsExpecting_of_announcesAll (fun _ => True) hp copy hrun trivial⟩

/-- A list of values behind a lookahead fails at its first value, which is a choice; and two tokens in
    order fail at the second one. -/
theorem error_expected_of_failure_at_letter :
    let value : Parser Char (fun _ => Empty) Unit Char := oneOf [token 'a', safe (token 'b')]
    let list := lookahead (separated "value" value (token ','))
    let pair : Parser Char (fun _ => Empty) Unit Char := map2 (fun _ b => b) anyToken value
    let ruler := Ruler.ofString (TextLayout.next {})
    let w : World Char Unit := ⟨State.initial Position.first ['c', 'd'], [], .empty⟩
    (∃ v, (list.eval ruler (fun _ => Empty.elim) 0).run w = (.ok (.failure false), v) ∧
      v.state.error.expected = list.expected ∧ list.expected.length = 2) ∧
    ∃ v, (pair.eval ruler (fun _ => Empty.elim) 0).run w = (.ok (.failure true), v) ∧
      v.state.error.expected = pair.expected ∧ pair.expected.length = 3 := by
  intro value list pair ruler w
  have hlist : (list.eval ruler (fun _ => Empty.elim) 0).run w = (.ok (.failure false), _) := rfl
  have hpair : (pair.eval ruler (fun _ => Empty.elim) 0).run w = (.ok (.failure true), _) := rfl
  exact ⟨⟨_, hlist, (error_expected_of_failure hlist).1 rfl rfl, rfl⟩,
    ⟨_, hpair, (error_expected_of_failure hpair).2 rfl, rfl⟩⟩

end Parser

end CommittedChoice
