import CommittedChoice.Proofs.SeparatedLists

set_option autoImplicit false

/-! # Where lists end

There are three kinds of list: with separators between the values, with one more behind the last
value if it is there, and with a separator behind each value. The first two have loops of their own
and the third one is a chain. They all go through the same row of values (`Run.Row`), and what is
tried behind the last value is the same as well: a separator, and a value if there is one
(`Run.Behind`). The kinds differ only in what they make of the ending: `Run.Ending.answer` has one
answer for a list that ends with a value and one for a list that ends with a separator.

A value and a separator may both succeed without reading anything. The first two kinds agree for
these too, and `Parser.optionallyTerminated_extends_separated` says by how much the one goes beyond
the other. Where values and separators consume, a list of the second kind is one of the first or one
of the third, and never both (`Parser.optionallyTerminated_partition`). -/

namespace CommittedChoice

variable {τ ω α β : Type} {ρ : Type → Type} {ruler : Ruler τ}

/-! ## Worlds that coincide -/

/-- Two worlds at the same place, with errors that differ at most in their expectations. -/
structure World.Coincides (w w' : World τ ω) : Prop where
  place : w.state.place = w'.state.place
  cause : w.state.error.cause = w'.state.error.cause
  message : w.state.error.message = w'.state.error.message

namespace World.Coincides

variable {w w₁ w₂ : World τ ω}

theorem refl (w : World τ ω) : w.Coincides w := ⟨rfl, rfl, rfl⟩

theorem symm (h : w.Coincides w₁) : w₁.Coincides w := ⟨h.place.symm, h.cause.symm, h.message.symm⟩

theorem trans (h : w.Coincides w₁) (h' : w₁.Coincides w₂) : w.Coincides w₂ :=
  ⟨h.place.trans h'.place, h.cause.trans h'.cause, h.message.trans h'.message⟩

theorem cursor (h : w.Coincides w₁) : w.state.cursor = w₁.state.cursor :=
  congrArg Place.cursor h.place

theorem position (h : w.Coincides w₁) : w.state.position = w₁.state.position :=
  congrArg Place.position h.place

end World.Coincides

/-! ## Rows of values -/

namespace Run

/-- Values with separators between them, from before the first value to behind the last. Each
    separator has consumed or the value behind it has. -/
inductive Row (x : Run τ ω (Outcome α)) (y : Run τ ω (Outcome β)) (w : World τ ω) :
    List α → Bool → World τ ω → Prop where
  | first {v : α} {c : Bool} {u : World τ ω} (hvalue : x.run w = (.ok (.success v c), u)) :
      Row x y w [v] c u
  | next {vs : List α} {c c₁ c₂ : Bool} {u u₁ u₂ : World τ ω} {b : β} {v : α}
      (hrow : Row x y w vs c u) (hseparator : y.run u = (.ok (.success b c₁), u₁))
      (hvalue : x.run u₁ = (.ok (.success v c₂), u₂)) (hconsumed : (c₁ || c₂) = true) :
      Row x y w (vs ++ [v]) true u₂

/-- What a list comes to behind its last value. -/
inductive Ending where
  /-- No separator, or one that did not consume and no value behind it. -/
  | done
  /-- A separator that consumed and no value behind it. -/
  | dangling
  /-- A separator or a value that is not complete. -/
  | broken
  /-- A separator or a value that stops. -/
  | stopped (reason : Stop)
  /-- A separator and a value that did not consume. -/
  | looped

/-- The answer of a list at an ending, for a kind of list that answers `atEnd` where nothing follows
    and `dangling` behind a separator. -/
def Ending.answer (atEnd dangling : Outcome β) (fault : GrammarError) :
    Ending → Except Stop (Outcome β)
  | .done => .ok atEnd
  | .dangling => .ok dangling
  | .broken => .ok (.failure true)
  | .stopped reason => .error reason
  | .looped => .error (.fault fault)

/-- How the ending is found, with the world behind the last attempt. -/
inductive Behind (x : Run τ ω (Outcome α)) (y : Run τ ω (Outcome β)) (u : World τ ω) :
    Ending → World τ ω → Prop where
  | absent {u' : World τ ω} (hseparator : y.run u = (.ok (.failure false), u')) :
      Behind x y u .done u'
  | idle {u₁ u' : World τ ω} {b : β} (hseparator : y.run u = (.ok (.success b false), u₁))
      (hvalue : x.run u₁ = (.ok (.failure false), u')) : Behind x y u .done u'
  | dangling {u₁ u' : World τ ω} {b : β} (hseparator : y.run u = (.ok (.success b true), u₁))
      (hvalue : x.run u₁ = (.ok (.failure false), u')) : Behind x y u .dangling u'
  | brokenSeparator {u' : World τ ω} (hseparator : y.run u = (.ok (.failure true), u')) :
      Behind x y u .broken u'
  | brokenValue {u₁ u' : World τ ω} {b : β} {c : Bool}
      (hseparator : y.run u = (.ok (.success b c), u₁))
      (hvalue : x.run u₁ = (.ok (.failure true), u')) : Behind x y u .broken u'
  | stoppedSeparator {u' : World τ ω} {reason : Stop} (hseparator : y.run u = (.error reason, u')) :
      Behind x y u (.stopped reason) u'
  | stoppedValue {u₁ u' : World τ ω} {b : β} {c : Bool} {reason : Stop}
      (hseparator : y.run u = (.ok (.success b c), u₁))
      (hvalue : x.run u₁ = (.error reason, u')) : Behind x y u (.stopped reason) u'
  | looped {u₁ u' : World τ ω} {b : β} {v : α}
      (hseparator : y.run u = (.ok (.success b false), u₁))
      (hvalue : x.run u₁ = (.ok (.success v false), u')) : Behind x y u .looped u'

variable {x : Run τ ω (Outcome α)} {y : Run τ ω (Outcome β)} {w u u' : World τ ω} {vs : List α}
  {c : Bool} {e : Ending}

/-- Every row comes to an ending, with some more values. -/
theorem Row.exists_behind (hx : x.Moves ruler false) (hy : y.Moves ruler false)
    (h : Row x y w vs c u) :
    ∃ vs c u e u', Row x y w vs c u ∧ Behind x y u e u' := by
  induction hn : u.state.place.rest.length using Nat.strongRecOn generalizing vs c u with
  | ind n ih =>
      rcases hseparator : y.run u with ⟨reason | ⟨b, c₁⟩ | _ | _, u₁⟩
      · exact ⟨_, _, _, _, _, h, .stoppedSeparator hseparator⟩
      · rcases hvalue : x.run u₁ with ⟨reason | ⟨v, c₂⟩ | _ | _, u₂⟩
        · exact ⟨_, _, _, _, _, h, .stoppedValue hseparator hvalue⟩
        · cases hconsumed : c₁ || c₂ with
          | true =>
              have hlt := hy.length_rest_lt_of_or hx hseparator hvalue hconsumed
              exact ih _ (hn ▸ hlt) (.next h hseparator hvalue hconsumed) rfl
          | false =>
              obtain ⟨rfl, rfl⟩ := Bool.or_eq_false_iff.1 hconsumed
              exact ⟨_, _, _, _, _, h, .looped hseparator hvalue⟩
        · cases c₁ with
          | true => exact ⟨_, _, _, _, _, h, .dangling hseparator hvalue⟩
          | false => exact ⟨_, _, _, _, _, h, .idle hseparator hvalue⟩
        · exact ⟨_, _, _, _, _, h, .brokenValue hseparator hvalue⟩
      · exact ⟨_, _, _, _, _, h, .absent hseparator⟩
      · exact ⟨_, _, _, _, _, h, .brokenSeparator hseparator⟩

theorem Repeats.concat {z : Run τ ω (Outcome α)} {v : α} (h : z.Repeats w vs u)
    (hrun : z.run u = (.ok (.success v true), u')) : z.Repeats w (vs ++ [v]) u' := by
  induction h with
  | nil w => exact .cons hrun (.nil u')
  | cons hfirst _ ih => exact .cons hfirst (ih hrun)

/-- A row is a first value and a row of continuations. -/
theorem Row.exists_repeats (h : Row x y w vs c u) (expected : List (Expected τ)) :
    ∃ v c₀ w₁ us, x.run w = (.ok (.success v c₀), w₁) ∧
      (continuation expected y x).Repeats w₁ us u ∧ vs = v :: us ∧ c = (c₀ || !us.isEmpty) := by
  induction h with
  | @first v c u hvalue => exact ⟨v, c, u, [], hvalue, .nil u, rfl, by simp⟩
  | @next vs c c₁ c₂ u u₁ u₂ b v _ hseparator hvalue hconsumed ih =>
      obtain ⟨v₀, c₀, w₁, us, hfirst, hrepeats, rfl, rfl⟩ := ih
      have hnext := run_pair_of_success (f := fun _ v => v) hseparator hvalue expected
      rw [hconsumed] at hnext
      exact ⟨v₀, c₀, w₁, us ++ [v], hfirst, hrepeats.concat hnext, rfl, by simp⟩

/-! ## What the lists make of an ending -/

/-- A list with separators between its values. -/
theorem Row.exists_run_separated (hx : x.Moves ruler false) (hy : y.Moves ruler false)
    (h : Row x y w vs c u) (hend : Behind x y u e u') (name : String)
    (expected : List (Expected τ)) :
    ∃ w', (separated name expected x y).run w =
        (e.answer (.success vs c) (.failure true) (Loop.separated.fault name), w') ∧
      w'.Coincides u' := by
  obtain ⟨v, c₀, w₁, us, hfirst, hrepeats, rfl, rfl⟩ := h.exists_repeats expected
  have hmoves : (continuation expected y x).Moves ruler false := .continuation hx hy
  cases hend with
  | absent hseparator =>
      exact ⟨_, run_separated_of_failure hmoves hfirst hrepeats name
        (run_pair_of_failure_first hseparator expected), rfl, rfl, rfl⟩
  | idle hseparator hvalue =>
      exact ⟨_, run_separated_of_failure hmoves hfirst hrepeats name
        (run_pair_of_failure_second hseparator hvalue expected), rfl, rfl, rfl⟩
  | dangling hseparator hvalue =>
      exact ⟨_, run_separated_of_committed hmoves hfirst hrepeats name
        (run_pair_of_failure_second hseparator hvalue expected), rfl, rfl, rfl⟩
  | brokenSeparator hseparator =>
      exact ⟨_, run_separated_of_committed hmoves hfirst hrepeats name
        (run_pair_of_failure_first hseparator expected), rfl, rfl, rfl⟩
  | @brokenValue _ _ _ c₁ hseparator hvalue =>
      have hlast := run_pair_of_failure_second (f := fun _ v => v) hseparator hvalue expected
      rw [Bool.or_true] at hlast
      exact ⟨_, run_separated_of_committed hmoves hfirst hrepeats name hlast, rfl, rfl, rfl⟩
  | stoppedSeparator hseparator =>
      exact ⟨_, run_separated_of_error hmoves hfirst hrepeats name
        (run_pair_of_error_first hseparator expected), rfl, rfl, rfl⟩
  | stoppedValue hseparator hvalue =>
      exact ⟨_, run_separated_of_error hmoves hfirst hrepeats name
        (run_pair_of_error_second hseparator hvalue expected), rfl, rfl, rfl⟩
  | looped hseparator hvalue =>
      exact ⟨_, run_separated_of_idle hmoves hfirst hrepeats name
        (run_pair_of_success hseparator hvalue expected), rfl, rfl, rfl⟩

/-- A round of a list that may be terminated, behind its separator. -/
theorem run_optionallyTerminatedRounds_of_separator {u₁ : World τ ω} {b : β} {c₁ : Bool}
    (hseparator : y.run u = (.ok (.success b c₁), u₁)) (name : String) (fuel : Nat)
    (found : List α) (c : Bool) :
    (optionallyTerminatedRounds name x y (fuel + 1) found c).run u =
      (x >>= fun
        | .success v c₂ =>
            if c₁ || c₂ then optionallyTerminatedRounds name x y fuel (v :: found) true
            else loopFault .optionallyTerminated name
        | .failure true => return .failure true
        | .failure false => do
            emit (.ended .optionallyTerminated found.length)
            return .success found.reverse (c || c₁)).run u₁ := by
  rw [optionallyTerminatedRounds]
  exact run_bind_of_ok hseparator

/-- A list that may be terminated goes through the row, and its loop is not at its bound then. -/
theorem Row.exists_fuel (hx : x.Moves ruler false) (hy : y.Moves ruler false)
    (h : Row x y w vs c u) (name : String) :
    ∃ fuel found, u.state.place.rest.length ≤ fuel ∧ vs = found.reverse ∧
      (optionallyTerminated name x y).run w =
        (optionallyTerminatedRounds name x y (fuel + 1) found c).run u := by
  induction h with
  | @first v c u hvalue =>
      refine ⟨u.state.place.rest.length, [v], Nat.le_refl _, rfl, ?_⟩
      rw [optionallyTerminated, run_bind_of_ok hvalue]
      rfl
  | @next vs c c₁ c₂ u u₁ u₂ b v _ hseparator hvalue hconsumed ih =>
      obtain ⟨fuel, found, hfuel, rfl, hrun⟩ := ih
      have hlt := hy.length_rest_lt_of_or hx hseparator hvalue hconsumed
      obtain ⟨fuel, rfl⟩ : ∃ n, fuel = n + 1 := ⟨fuel - 1, by omega⟩
      refine ⟨fuel, v :: found, by omega, List.reverse_cons.symm, ?_⟩
      rw [hrun, run_optionallyTerminatedRounds_of_separator hseparator, run_bind_of_ok hvalue]
      simp only [hconsumed, if_true]

/-- A list with separators between its values and perhaps one behind the last. -/
theorem Row.exists_run_optionallyTerminated (hx : x.Moves ruler false) (hy : y.Moves ruler false)
    (h : Row x y w vs c u) (hend : Behind x y u e u') (name : String) :
    ∃ w', (optionallyTerminated name x y).run w =
        (e.answer (.success vs c) (.success vs true) (Loop.optionallyTerminated.fault name), w') ∧
      w'.Coincides u' := by
  obtain ⟨fuel, found, -, rfl, hrun⟩ := h.exists_fuel hx hy name
  rw [hrun]
  cases hend with
  | absent hseparator =>
      rw [optionallyTerminatedRounds, run_bind_of_ok hseparator]
      exact ⟨_, rfl, rfl, rfl, rfl⟩
  | idle hseparator hvalue =>
      rw [run_optionallyTerminatedRounds_of_separator hseparator, run_bind_of_ok hvalue,
        Bool.or_false]
      exact ⟨_, rfl, rfl, rfl, rfl⟩
  | dangling hseparator hvalue =>
      rw [run_optionallyTerminatedRounds_of_separator hseparator, run_bind_of_ok hvalue,
        Bool.or_true]
      exact ⟨_, rfl, rfl, rfl, rfl⟩
  | brokenSeparator hseparator =>
      rw [optionallyTerminatedRounds, run_bind_of_ok hseparator]
      exact ⟨_, rfl, rfl, rfl, rfl⟩
  | brokenValue hseparator hvalue =>
      rw [run_optionallyTerminatedRounds_of_separator hseparator, run_bind_of_ok hvalue]
      exact ⟨_, rfl, rfl, rfl, rfl⟩
  | stoppedSeparator hseparator =>
      rw [optionallyTerminatedRounds, run_bind_of_error hseparator]
      exact ⟨_, rfl, rfl, rfl, rfl⟩
  | stoppedValue hseparator hvalue =>
      rw [run_optionallyTerminatedRounds_of_separator hseparator, run_bind_of_error hvalue]
      exact ⟨_, rfl, rfl, rfl, rfl⟩
  | looped hseparator hvalue =>
      rw [run_optionallyTerminatedRounds_of_separator hseparator, run_bind_of_ok hvalue]
      exact ⟨_, rfl, rfl, rfl, rfl⟩

/-- Where values and separators always consume, a row is also one of values with a separator behind
    each, up to the last value. -/
theorem Row.exists_repeats_pair (hx : x.AlwaysConsumes) (h : Row x y w vs c u)
    (expected : List (Expected τ)) :
    ∃ us v u₀, vs = us ++ [v] ∧ (pair expected (fun v _ => v) x y).Repeats w us u₀ ∧
      x.run u₀ = (.ok (.success v true), u) := by
  induction h with
  | @first v c u hvalue =>
      obtain rfl : c = true := hx hvalue
      exact ⟨[], v, w, rfl, .nil w, hvalue⟩
  | @next vs c c₁ c₂ u u₁ u₂ b v _ hseparator hvalue _ ih =>
      obtain ⟨us, v₀, u₀, rfl, hrepeats, hlast⟩ := ih
      obtain rfl : c₂ = true := hx hvalue
      have hpair := run_pair_of_success (f := fun v _ => v) hlast hseparator expected
      exact ⟨us ++ [v₀], v, u₁, rfl, hrepeats.concat hpair, hvalue⟩

/-- A row of values with a separator behind each, by the ending of the row of values. -/
theorem Row.exists_chainEnds (hx : x.AlwaysConsumes) (hy : y.AlwaysConsumes) (h : Row x y w vs c u)
    (hend : Behind x y u e u') (name : String) (expected : List (Expected τ)) :
    ∃ w', ChainEnds name [] (fun vs v => v :: vs) (pair expected (fun v _ => v) x y) w
        (e.answer (.failure true) (.success vs.reverse true) (Loop.chain.fault name)) w' ∧
      w'.Coincides u' := by
  obtain ⟨us, v, u₀, rfl, hrepeats, hlast⟩ := h.exists_repeats_pair hx expected
  -- the last value and what is behind it are one more attempt, and with the separator yet another
  cases hend with
  | absent hseparator =>
      have hattempt := run_pair_of_failure_second (f := fun v _ => v) hlast hseparator expected
      exact ⟨_, .broken hrepeats hattempt, rfl, rfl, rfl⟩
  | idle hseparator hvalue => cases hy hseparator
  | dangling hseparator hvalue =>
      have hrow := hrepeats.concat (run_pair_of_success hlast hseparator expected)
      have hended : ChainEnds name [] (fun vs v => v :: vs) (pair expected (fun v _ => v) x y) w
          _ _ := .ended (by simp) hrow (run_pair_of_failure_first hvalue expected)
      rw [List.foldl_flip_cons_eq_append', List.append_nil] at hended
      exact ⟨_, hended, rfl, rfl, rfl⟩
  | brokenSeparator hseparator =>
      have hattempt := run_pair_of_failure_second (f := fun v _ => v) hlast hseparator expected
      exact ⟨_, .broken hrepeats hattempt, rfl, rfl, rfl⟩
  | brokenValue hseparator hvalue =>
      have hrow := hrepeats.concat (run_pair_of_success hlast hseparator expected)
      exact ⟨_, .broken hrow (run_pair_of_failure_first hvalue expected), rfl, rfl, rfl⟩
  | stoppedSeparator hseparator =>
      have hattempt := run_pair_of_error_second (f := fun v _ => v) hlast hseparator expected
      exact ⟨_, .stopped hrepeats hattempt, rfl, rfl, rfl⟩
  | stoppedValue hseparator hvalue =>
      have hrow := hrepeats.concat (run_pair_of_success hlast hseparator expected)
      exact ⟨_, .stopped hrow (run_pair_of_error_first hvalue expected), rfl, rfl, rfl⟩
  | looped hseparator hvalue => cases hx hvalue

theorem Row.eq_true (hx : x.AlwaysConsumes) (h : Row x y w vs c u) : c = true := by
  cases h with
  | first hvalue => exact hx hvalue
  | next => rfl

end Run


namespace Run

variable {x : Run τ ω (Outcome α)} {y : Run τ ω (Outcome β)}

/-- How the answer of a list that may be terminated extends that of a plain list. -/
inductive Extends (x : Run τ ω (Outcome α)) (y : Run τ ω (Outcome β)) (name : String)
    (w : World τ ω) : Except Stop (Outcome (List α)) → World τ ω →
      Except Stop (Outcome (List α)) → World τ ω → Prop where
  /-- Both lists have the same answer. -/
  | same {r : Except Stop (Outcome (List α))} {w₁ w₂ : World τ ω} (h : w₁.Coincides w₂) :
      Extends x y name w r w₁ r w₂
  /-- The plain list fails behind a separator, where the other one succeeds. -/
  | dangling {vs : List α} {c : Bool} {u u₁ u₂ w₁ w₂ : World τ ω} {b : β} (hrow : Row x y w vs c u)
      (hseparator : y.run u = (.ok (.success b true), u₁))
      (hvalue : x.run u₁ = (.ok (.failure false), u₂)) (h₁ : w₁.Coincides u₂)
      (h₂ : w₂.Coincides u₂) :
      Extends x y name w (.ok (.failure true)) w₁ (.ok (.success vs true)) w₂
  /-- Both lists are at fault, each by its own name. -/
  | looped {w₁ w₂ : World τ ω} :
      Extends x y name w (.error (.fault (Loop.separated.fault name))) w₁
        (.error (.fault (Loop.optionallyTerminated.fault name))) w₂

theorem exists_extends (hx : x.Moves ruler false) (hy : y.Moves ruler false) (name : String)
    (expected : List (Expected τ)) (w : World τ ω) :
    ∃ r₁ w₁ r₂ w₂, (separated name expected x y).run w = (r₁, w₁) ∧
      (optionallyTerminated name x y).run w = (r₂, w₂) ∧ Extends x y name w r₁ w₁ r₂ w₂ := by
  rcases hfirst : x.run w with ⟨reason | ⟨v, c⟩ | c, w₁⟩
  · exact ⟨_, _, _, _, run_bind_of_error hfirst, run_bind_of_error hfirst, .same (.refl w₁)⟩
  · obtain ⟨vs, c, u, e, u', hrow, hend⟩ := (Row.first hfirst).exists_behind hx hy
    obtain ⟨w₁, hrun₁, h₁⟩ := hrow.exists_run_separated hx hy hend name expected
    obtain ⟨w₂, hrun₂, h₂⟩ := hrow.exists_run_optionallyTerminated hx hy hend name
    refine ⟨_, w₁, _, w₂, hrun₁, hrun₂, ?_⟩
    cases e with
    | done | broken | stopped reason => exact .same (h₁.trans h₂.symm)
    | dangling =>
        cases hend with
        | dangling hseparator hvalue => exact .dangling hrow hseparator hvalue h₁ h₂
    | looped => exact .looped
  · exact ⟨_, _, _, _, run_bind_of_ok hfirst, run_bind_of_ok hfirst, .same (.refl w₁)⟩

namespace Extends

variable {name : String} {w w₁ w₂ : World τ ω} {r₁ r₂ : Except Stop (Outcome (List α))}
  {vs : List α} {c : Bool}

theorem of_success (h : Extends x y name w (.ok (.success vs c)) w₁ r₂ w₂) :
    r₂ = .ok (.success vs c) ∧ w₁.Coincides w₂ := by
  cases h with
  | same h => exact ⟨rfl, h⟩

theorem of_failure (h : Extends x y name w r₁ w₁ (.ok (.failure c)) w₂) :
    r₁ = .ok (.failure c) ∧ w₁.Coincides w₂ := by
  cases h with
  | same h => exact ⟨rfl, h⟩

theorem fault_iff (h : Extends x y name w r₁ w₁ r₂ w₂) :
    (∃ error, r₁ = .error (.fault error)) ↔ ∃ error, r₂ = .error (.fault error) := by
  cases h with
  | same => rfl
  | dangling => simp
  | looped => simp

theorem fault_eq {error error' : GrammarError}
    (h : Extends x y name w (.error (.fault error)) w₁ (.error (.fault error')) w₂) :
    error' = error ∨
      error = Loop.separated.fault name ∧ error' = Loop.optionallyTerminated.fault name := by
  cases h with
  | same => exact .inl rfl
  | looped => exact .inr ⟨rfl, rfl⟩

end Extends

end Run

namespace Parser

/-- **A list that may be terminated extends the plain list.** From any state, and for any values and
    separators:

    where the plain list succeeds, the other one does so with the same values, the same flag, the
    same cursor and the same position; one is at fault exactly if the other one is, and the faults
    are the same but for the name of the loop; where the list that may be terminated fails, the
    plain one does so with the same flag, the same cursor and position, the same cause and the same
    message.

    If the plain list fails and the other one succeeds, then there is a row of values, a separator
    behind it that has consumed, and no value behind that. The error of the plain list is that of
    the missing value. The list that may be terminated has the values of the row, and it ends behind
    the separator. -/
theorem optionallyTerminated_extends_separated (ruler : Ruler τ) (rules : Rules τ ρ ω) (depth : Nat)
    (p : Parser τ ρ ω α) (s : Parser τ ρ ω β) (copy : Nat) (name : String) (w : World τ ω) :
    let x := p.eval ruler (calls ruler rules depth) copy
    let y := s.eval ruler (calls ruler rules depth) copy
    let plain := (separated name p s).eval ruler (calls ruler rules depth) copy
    let extended := (optionallyTerminated name p s).eval ruler (calls ruler rules depth) copy
    (∀ vs c w₁, plain.run w = (.ok (.success vs c), w₁) →
      ∃ w₂, extended.run w = (.ok (.success vs c), w₂) ∧ w₂.state.cursor = w₁.state.cursor ∧
        w₂.state.position = w₁.state.position) ∧
    ((∃ error w₁, plain.run w = (.error (.fault error), w₁)) ↔
      ∃ error w₂, extended.run w = (.error (.fault error), w₂)) ∧
    (∀ error w₁ error' w₂, plain.run w = (.error (.fault error), w₁) →
      extended.run w = (.error (.fault error'), w₂) →
      error' = error ∨
        error = Loop.separated.fault name ∧ error' = Loop.optionallyTerminated.fault name) ∧
    (∀ c w₂, extended.run w = (.ok (.failure c), w₂) →
      ∃ w₁, plain.run w = (.ok (.failure c), w₁) ∧ w₁.state.cursor = w₂.state.cursor ∧
        w₁.state.position = w₂.state.position ∧ w₁.state.error.cause = w₂.state.error.cause ∧
        w₁.state.error.message = w₂.state.error.message) ∧
    (∀ vs c w₂ c' w₁, extended.run w = (.ok (.success vs c), w₂) →
      plain.run w = (.ok (.failure c'), w₁) →
      ∃ c₀ u b u₁ u₂, x.Row y w vs c₀ u ∧ y.run u = (.ok (.success b true), u₁) ∧
        x.run u₁ = (.ok (.failure false), u₂) ∧
        w₁.state.error.cause = u₂.state.error.cause ∧
        w₁.state.error.message = u₂.state.error.message ∧
        w₂.state.cursor = u₁.state.cursor ∧ w₂.state.position = u₁.state.position) := by
  intro x y plain extended
  have hx : x.Moves ruler false := moves_eval_calls ruler rules depth p copy
  have hy : y.Moves ruler false := moves_eval_calls ruler rules depth s copy
  obtain ⟨r₁, w₁, r₂, w₂, hplain, hextended, h⟩ :=
    Run.exists_extends hx hy name (Expected.concat [s.expected, p.expected]) w
  have hplain : plain.run w = (r₁, w₁) := hplain
  have hextended : extended.run w = (r₂, w₂) := hextended
  simp only [hplain, hextended, Prod.mk.injEq]
  refine ⟨?_, ?_, ?_, ?_, ?_⟩
  · rintro vs c _ ⟨rfl, rfl⟩
    obtain ⟨rfl, hend⟩ := h.of_success
    exact ⟨w₂, ⟨rfl, rfl⟩, hend.cursor.symm, hend.position.symm⟩
  · simpa using h.fault_iff
  · rintro error _ error' _ ⟨rfl, -⟩ ⟨rfl, -⟩
    exact h.fault_eq
  · rintro c _ ⟨rfl, rfl⟩
    obtain ⟨rfl, hend⟩ := h.of_failure
    exact ⟨w₁, ⟨rfl, rfl⟩, hend.cursor, hend.position, hend.cause, hend.message⟩
  · rintro vs c _ c' _ ⟨rfl, rfl⟩ ⟨rfl, rfl⟩
    cases h with
    | @dangling _ c₀ u u₁ u₂ _ _ b hrow hseparator hvalue h₁ h₂ =>
        have hplace : w₂.state.place = u₁.state.place := h₂.place.trans (hx.place_eq hvalue rfl)
        exact ⟨c₀, u, b, u₁, u₂, hrow, hseparator, hvalue, h₁.cause, h₁.message,
          congrArg Place.cursor hplace, congrArg Place.position hplace⟩

/-- Two digits and a comma behind each. The plain list fails for want of a third digit, and the list
    that may be terminated ends behind the second comma. -/
theorem optionallyTerminated_extends_separated_trailing :
    let digit : Parser Char (fun _ => Empty) Unit Char := candidate Char.isDigit
    let ruler := Ruler.ofString (TextLayout.next {})
    let call := calls ruler (fun _ => Empty.elim) 0
    let w : World Char Unit := ⟨State.initial Position.first ['1', ',', '2', ','], [], .empty⟩
    ∃ w₁ w₂,
      ((separated "digit" digit (token ',')).eval ruler call 0).run w = (.ok (.failure true), w₁) ∧
      ((optionallyTerminated "digit" digit (token ',')).eval ruler call 0).run w =
        (.ok (.success ['1', '2'] true), w₂) ∧ w₂.state.cursor = 4 ∧
      ∃ c₀ u b u₁ u₂,
        (digit.eval ruler call 0).Row ((token ',').eval ruler call 0) w ['1', '2'] c₀ u ∧
        ((token ',').eval ruler call 0).run u = (.ok (.success b true), u₁) ∧
        (digit.eval ruler call 0).run u₁ = (.ok (.failure false), u₂) ∧
        w₁.state.error.message = u₂.state.error.message := by
  intro digit ruler call w
  have hplain : ((separated "digit" digit (token ',')).eval ruler call 0).run w =
      (.ok (.failure true), _) := rfl
  have hextended : ((optionallyTerminated "digit" digit (token ',')).eval ruler call 0).run w =
      (.ok (.success ['1', '2'] true), _) := rfl
  obtain ⟨c₀, u, b, u₁, u₂, hrow, hseparator, hvalue, -, hmessage, -, -⟩ :=
    (optionallyTerminated_extends_separated ruler (fun _ => Empty.elim) 0 digit (token ',') 0
      "digit" w).2.2.2.2 _ _ _ _ _ hextended hplain
  exact ⟨_, _, hplain, hextended, rfl, c₀, u, b, u₁, u₂, hrow, hseparator, hvalue, hmessage⟩

end Parser

/-! ## Three kinds of list -/

namespace Run

/-- The outcome of a list that is at an end where it may end or not. -/
def listed (allowed : Bool) (vs : List α) : Outcome (List α) :=
  if allowed then .success vs true else .failure true

/-- A kind of list, for values that always consume. A list may end with a value if `bare` is on, and
    with a separator if `trailing` is. -/
structure ReadsLists (x : Run τ ω (Outcome α)) (y : Run τ ω (Outcome β)) (bare trailing : Bool)
    (z : Run τ ω (Outcome (List α))) : Prop where
  of_failure {w w₁ : World τ ω} {c : Bool} (hfirst : x.run w = (.ok (.failure c), w₁)) :
    ∃ w', z.run w = (.ok (.failure c), w') ∧ w'.Coincides w₁
  of_error {w w₁ : World τ ω} {reason : Stop} (hfirst : x.run w = (.error reason, w₁)) :
    z.run w = (.error reason, w₁)
  of_row {w u u' : World τ ω} {vs : List α} {c : Bool} {e : Ending} (hrow : Row x y w vs c u)
    (hend : Behind x y u e u') :
    ∃ fault w', z.run w = (e.answer (listed bare vs) (listed trailing vs) fault, w') ∧
      w'.Coincides u'

section Kinds

variable {x : Run τ ω (Outcome α)} {y : Run τ ω (Outcome β)} (hx : x.Moves ruler false)
  (hy : y.Moves ruler false) (hconsumes : x.AlwaysConsumes)
include hx hy hconsumes

theorem readsLists_separated (name : String) (expected : List (Expected τ)) :
    ReadsLists x y true false (separated name expected x y) where
  of_failure hfirst := ⟨_, run_bind_of_ok hfirst, .refl _⟩
  of_error hfirst := run_bind_of_error hfirst
  of_row hrow hend := by
    obtain ⟨w', hrun, hlast⟩ := hrow.exists_run_separated hx hy hend name expected
    rw [hrow.eq_true hconsumes] at hrun
    exact ⟨_, w', hrun, hlast⟩

theorem readsLists_optionallyTerminated (name : String) :
    ReadsLists x y true true (optionallyTerminated name x y) where
  of_failure hfirst := ⟨_, run_bind_of_ok hfirst, .refl _⟩
  of_error hfirst := run_bind_of_error hfirst
  of_row hrow hend := by
    obtain ⟨w', hrun, hlast⟩ := hrow.exists_run_optionallyTerminated hx hy hend name
    rw [hrow.eq_true hconsumes] at hrun
    exact ⟨_, w', hrun, hlast⟩

end Kinds

end Run

/-- The chain of values with a separator behind each. -/
theorem Parser.readsLists_endBy1 {call : Calls τ ρ ω} {copy : Nat} {p : Parser τ ρ ω α}
    {s : Parser τ ρ ω β} (hmoves : ((before p s).eval ruler call copy).Moves ruler false)
    (hp : (p.eval ruler call copy).AlwaysConsumes) (hs : (s.eval ruler call copy).AlwaysConsumes)
    (name : String) :
    Run.ReadsLists (p.eval ruler call copy) (s.eval ruler call copy) false true
      ((endBy1 name p s).eval ruler call copy) where
  of_failure {w w₁ c} hfirst := by
    have hpair : ((before p s).eval ruler call copy).run w =
        (.ok (.failure c), w₁.forward (before p s).expected) :=
      Run.run_pair_of_failure_first hfirst (before p s).expected
    cases c with
    | false => exact ⟨_, run_many1_of_chainEnds name hmoves (.missing hpair), rfl, rfl, rfl⟩
    | true => exact ⟨_, run_many1_of_chainEnds name hmoves (.broken (.nil w) hpair), rfl, rfl, rfl⟩
  of_error {w w₁ reason} hfirst := by
    have hpair : ((before p s).eval ruler call copy).run w = (.error reason, w₁) :=
      Run.run_pair_of_error_first hfirst (before p s).expected
    exact run_many1_of_chainEnds name hmoves (.stopped (.nil w) hpair)
  of_row {w u u' vs c e} hrow hend := by
    obtain ⟨w', hends, hlast⟩ := hrow.exists_chainEnds hp hs hend name (before p s).expected
    refine ⟨Loop.chain.fault name, w', (run_many1_of_chainEnds name hmoves hends).trans ?_, hlast⟩
    -- the chain collects its values in reverse order
    cases e with
    | dangling => simp [Run.Ending.answer, Run.listed, Except.map, Outcome.map]
    | done | broken | stopped | looped => rfl

namespace Run

/-- The answers of the three kinds of list, of which the second one may be terminated and the third
    one is. -/
inductive Sorted : Except Stop (Outcome (List α)) → World τ ω → Except Stop (Outcome (List α)) →
    World τ ω → Except Stop (Outcome (List α)) → World τ ω → Prop where
  /-- The list ends with a value. -/
  | plain {vs : List α} {w₁ w₂ w₃ : World τ ω} (h : w₁.Coincides w₂) :
      Sorted (.ok (.success vs true)) w₁ (.ok (.success vs true)) w₂ (.ok (.failure true)) w₃
  /-- The list ends with a separator. -/
  | terminated {vs : List α} {w₁ w₂ w₃ : World τ ω} (h : w₃.Coincides w₂) :
      Sorted (.ok (.failure true)) w₁ (.ok (.success vs true)) w₂ (.ok (.success vs true)) w₃
  /-- There is no list. -/
  | neither {r₁ r₂ r₃ : Except Stop (Outcome (List α))} {w₁ w₂ w₃ : World τ ω}
      (h₁ : ∀ vs c, r₁ ≠ .ok (.success vs c)) (h₂ : ∀ vs c, r₂ ≠ .ok (.success vs c))
      (h₃ : ∀ vs c, r₃ ≠ .ok (.success vs c)) : Sorted r₁ w₁ r₂ w₂ r₃ w₃

theorem exists_sorted {x : Run τ ω (Outcome α)} {y : Run τ ω (Outcome β)}
    {z₁ z₂ z₃ : Run τ ω (Outcome (List α))} (hx : x.Moves ruler false) (hy : y.Moves ruler false)
    (hplain : ReadsLists x y true false z₁) (hoptional : ReadsLists x y true true z₂)
    (hterminated : ReadsLists x y false true z₃) (w : World τ ω) :
    ∃ r₁ w₁ r₂ w₂ r₃ w₃, z₁.run w = (r₁, w₁) ∧ z₂.run w = (r₂, w₂) ∧ z₃.run w = (r₃, w₃) ∧
      Sorted r₁ w₁ r₂ w₂ r₃ w₃ := by
  rcases hfirst : x.run w with ⟨reason | ⟨v, c⟩ | c, w₁⟩
  · exact ⟨_, _, _, _, _, _, hplain.of_error hfirst, hoptional.of_error hfirst,
      hterminated.of_error hfirst, .neither nofun nofun nofun⟩
  · obtain ⟨vs, c, u, e, u', hrow, hend⟩ := (Row.first hfirst).exists_behind hx hy
    obtain ⟨fault₁, w₁, hrun₁, h₁⟩ := hplain.of_row hrow hend
    obtain ⟨fault₂, w₂, hrun₂, h₂⟩ := hoptional.of_row hrow hend
    obtain ⟨fault₃, w₃, hrun₃, h₃⟩ := hterminated.of_row hrow hend
    refine ⟨_, w₁, _, w₂, _, w₃, hrun₁, hrun₂, hrun₃, ?_⟩
    cases e with
    | done => exact .plain (h₁.trans h₂.symm)
    | dangling => exact .terminated (h₃.trans h₂.symm)
    | broken | stopped | looped => exact .neither nofun nofun nofun
  · obtain ⟨w₁, hrun₁, -⟩ := hplain.of_failure hfirst
    obtain ⟨w₂, hrun₂, -⟩ := hoptional.of_failure hfirst
    obtain ⟨w₃, hrun₃, -⟩ := hterminated.of_failure hfirst
    exact ⟨_, w₁, _, w₂, _, w₃, hrun₁, hrun₂, hrun₃, .neither nofun nofun nofun⟩

/-- The computation succeeds from a world. -/
def Succeeds (x : Run τ ω (Outcome α)) (w : World τ ω) : Prop :=
  ∃ v c w', x.run w = (.ok (.success v c), w')

end Run

namespace Parser

/-- **Three kinds of list.** Let values and separators always consume where they succeed. From any
    state, the list that may be terminated succeeds exactly if one of the plain list and the list
    with a separator behind each value succeeds and the other one does not. It has the values, the
    flag, the cursor and the position of the one that does, and these two never both succeed. -/
theorem optionallyTerminated_partition (ruler : Ruler τ) (rules : Rules τ ρ ω) (depth : Nat)
    (p : Parser τ ρ ω α) (s : Parser τ ρ ω β) (copy : Nat) (name₁ name₂ name₃ : String)
    (hp : (p.eval ruler (calls ruler rules depth) copy).AlwaysConsumes)
    (hs : (s.eval ruler (calls ruler rules depth) copy).AlwaysConsumes) (w : World τ ω) :
    let plain := (separated name₁ p s).eval ruler (calls ruler rules depth) copy
    let optional := (optionallyTerminated name₂ p s).eval ruler (calls ruler rules depth) copy
    let terminated := (endBy1 name₃ p s).eval ruler (calls ruler rules depth) copy
    (optional.Succeeds w ↔
      plain.Succeeds w ∧ ¬ terminated.Succeeds w ∨ terminated.Succeeds w ∧ ¬ plain.Succeeds w) ∧
    (∀ vs c w₁,
      plain.run w = (.ok (.success vs c), w₁) ∨ terminated.run w = (.ok (.success vs c), w₁) →
      ∃ w₂, optional.run w = (.ok (.success vs c), w₂) ∧ w₂.state.cursor = w₁.state.cursor ∧
        w₂.state.position = w₁.state.position) ∧
    ¬ (plain.Succeeds w ∧ terminated.Succeeds w) := by
  intro plain optional terminated
  have hx := moves_eval_calls ruler rules depth p copy
  have hy := moves_eval_calls ruler rules depth s copy
  have hmoves := moves_eval_calls ruler rules depth (before p s) copy
  obtain ⟨r₁, w₁, r₂, w₂, r₃, w₃, hplain, hoptional, hterminated, hsorted⟩ :=
    Run.exists_sorted hx hy (Run.readsLists_separated hx hy hp name₁ _)
      (Run.readsLists_optionallyTerminated hx hy hp name₂) (readsLists_endBy1 hmoves hp hs name₃) w
  have hplain : plain.run w = (r₁, w₁) := hplain
  have hoptional : optional.run w = (r₂, w₂) := hoptional
  have hterminated : terminated.run w = (r₃, w₃) := hterminated
  simp only [Run.Succeeds, hplain, hoptional, hterminated, Prod.mk.injEq]
  cases hsorted with
  | plain h =>
      refine ⟨by simp, ?_, by simp⟩
      rintro vs c _ (⟨⟨⟩, rfl⟩ | ⟨⟨⟩, -⟩)
      exact ⟨w₂, ⟨rfl, rfl⟩, h.cursor.symm, h.position.symm⟩
  | terminated h =>
      refine ⟨by simp, ?_, by simp⟩
      rintro vs c _ (⟨⟨⟩, -⟩ | ⟨⟨⟩, rfl⟩)
      exact ⟨w₂, ⟨rfl, rfl⟩, h.cursor.symm, h.position.symm⟩
  | neither h₁ h₂ h₃ => simp [h₁, h₂, h₃]

/-- Digits and commas always consume. The list with a separator behind each value and the list that
    may be terminated both read two digits with a comma behind each, and the plain list does not. -/
theorem optionallyTerminated_partition_trailing :
    let digit : Parser Char (fun _ => Empty) Unit Char := candidate Char.isDigit
    let ruler := Ruler.ofString (TextLayout.next {})
    let call := calls ruler (fun _ => Empty.elim) 0
    let w : World Char Unit := ⟨State.initial Position.first ['1', ',', '2', ','], [], .empty⟩
    (digit.eval ruler call 0).AlwaysConsumes ∧
    ((token ',' : Parser Char (fun _ => Empty) Unit Char).eval ruler call 0).AlwaysConsumes ∧
    ¬ ((separated "digit" digit (token ',')).eval ruler call 0).Succeeds w ∧
    ∃ w₁ w₂,
      ((endBy1 "digit" digit (token ',')).eval ruler call 0).run w =
        (.ok (.success ['1', '2'] true), w₁) ∧
      ((optionallyTerminated "digit" digit (token ',')).eval ruler call 0).run w =
        (.ok (.success ['1', '2'] true), w₂) ∧
      w₂.state.cursor = w₁.state.cursor ∧ w₂.state.position = w₁.state.position := by
  intro digit ruler call w
  have hdigit := alwaysConsumes_eval_calls ruler (fun _ => Empty.elim) 0 (p := digit) rfl 0
  have hcomma := alwaysConsumes_eval_calls ruler (fun _ => Empty.elim) 0
    (p := (token ',' : Parser Char (fun _ => Empty) Unit Char)) rfl 0
  have hterminated : ((endBy1 "digit" digit (token ',')).eval ruler call 0).run w =
      (.ok (.success ['1', '2'] true), _) := rfl
  obtain ⟨-, hvalues, hnever⟩ := optionallyTerminated_partition ruler (fun _ => Empty.elim) 0 digit
    (token ',') 0 "digit" "digit" "digit" hdigit hcomma w
  obtain ⟨w₂, hoptional, hcursor, hposition⟩ := hvalues _ _ _ (.inr hterminated)
  refine ⟨hdigit, hcomma, fun hplain => ?_, _, w₂, hterminated, hoptional, hcursor, hposition⟩
  exact hnever ⟨hplain, _, _, _, hterminated⟩

end Parser

end CommittedChoice
