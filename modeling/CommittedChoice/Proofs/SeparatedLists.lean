import CommittedChoice.Proofs.Chains

set_option autoImplicit false

/-! # Lists by smaller parsers

A list of values with separators between them has a loop of its own. It could as well be put
together from smaller parsers: a value, and then any number of separators with a value behind each.
The two do the same work with different loops. That of the list makes its first attempt at a
separator in the loop, where a body that does not consume is a fault, while that of the chain makes
it before the loop and has to come to a second attempt to find the fault.

The attempts are the same ones, because the body of either loop is a separator and a value
(`Run.continuation`, `Parser.keepSecond`). So both loops go through one row of attempts
(`Run.Repeats`), and what the attempt after the row does decides for both of them. What a list makes
of it is said by `run_separated_of_failure`, `run_separated_of_committed`, `run_separated_of_error`
and `run_separated_of_idle`, and what any number of values makes of it by the lemmas on `many` with
the same endings. The main statement is `Parser.separated_agrees_with_bind`. -/

namespace CommittedChoice

variable {τ ω α β γ : Type} {ρ : Type → Type} {ruler : Ruler τ}

/-- The world with its last error reported under other expectations. -/
def World.forward (w : World τ ω) (expected : List (Expected τ)) : World τ ω :=
  { w with state := w.state.forward expected }

namespace Run

/-! ## Two components -/

/-- Two components in order, their values combined. The body of a list is one, and so is a value
    with its separator. -/
def pair (expected : List (Expected τ)) (f : α → β → γ) (x : Run τ ω (Outcome α))
    (y : Run τ ω (Outcome β)) : Run τ ω (Outcome γ) :=
  component expected false x fun a earlier =>
    component expected earlier y fun b consumed => return .success (f a b) consumed

section Pair

variable {f : α → β → γ} {x : Run τ ω (Outcome α)} {y : Run τ ω (Outcome β)}
  {w w₁ w₂ : World τ ω} {a : α} {b : β} {c c₁ c₂ : Bool} {reason : Stop}

theorem run_pair_of_success (hx : x.run w = (.ok (.success a c₁), w₁))
    (hy : y.run w₁ = (.ok (.success b c₂), w₂)) (expected : List (Expected τ)) :
    (pair expected f x y).run w = (.ok (.success (f a b) (c₁ || c₂)), w₂) := by
  rw [pair, component, run_bind_of_ok hx]
  show (component expected (false || c₁) y _).run w₁ = _
  rw [component, run_bind_of_ok hy]
  rfl

theorem run_pair_of_failure_first (hx : x.run w = (.ok (.failure c), w₁))
    (expected : List (Expected τ)) :
    (pair expected f x y).run w = (.ok (.failure c), w₁.forward expected) := by
  rw [pair, component, run_bind_of_ok hx]
  rfl

theorem run_pair_of_error_first (hx : x.run w = (.error reason, w₁))
    (expected : List (Expected τ)) : (pair expected f x y).run w = (.error reason, w₁) := by
  rw [pair, component, run_bind_of_error hx]

theorem run_pair_of_failure_second (hx : x.run w = (.ok (.success a c₁), w₁))
    (hy : y.run w₁ = (.ok (.failure c₂), w₂)) (expected : List (Expected τ)) :
    (pair expected f x y).run w = (.ok (.failure (c₁ || c₂)), w₂.forward expected) := by
  rw [pair, component, run_bind_of_ok hx]
  show (component expected (false || c₁) y _).run w₁ = _
  rw [component, run_bind_of_ok hy]
  rfl

theorem run_pair_of_error_second (hx : x.run w = (.ok (.success a c₁), w₁))
    (hy : y.run w₁ = (.error reason, w₂)) (expected : List (Expected τ)) :
    (pair expected f x y).run w = (.error reason, w₂) := by
  rw [pair, component, run_bind_of_ok hx]
  show (component expected (false || c₁) y _).run w₁ = _
  rw [component, run_bind_of_error hy]

end Pair

/-! ## The loop of a list -/

variable {x : Run τ ω (Outcome α)} {w w₁ u u' : World τ ω} {v : α} {vs : List α} {c : Bool}

/-- The rounds behind a first attempt go through the row, and the loop is not at its bound then. The
    flag is on from the first round of the row on. -/
theorem Repeats.exists_run_rounds (hmoves : x.Moves ruler false) (h : x.Repeats w vs u)
    (loop : Loop) (name : String) (combine : β → α → β) (acc : β) (consumed : Bool) (count : Nat) :
    ∃ fuel, (rounds loop name combine x (w.state.place.rest.length + 1) acc consumed count).run w =
      (rounds loop name combine x (fuel + 1) (vs.foldl combine acc) (consumed || !vs.isEmpty)
        (count + vs.length)).run u := by
  cases h with
  | nil => exact ⟨w.state.place.rest.length, by simp⟩
  | @cons _ w₁ _ v vs hrun hrest =>
      have hlt := hmoves.length_rest_lt hrun rfl
      have hle := hrest.length_le hmoves
      obtain ⟨fuel, hfuel⟩ : ∃ fuel, w.state.place.rest.length = fuel + 1 + vs.length :=
        ⟨w.state.place.rest.length - 1 - vs.length, by omega⟩
      refine ⟨fuel, ?_⟩
      rw [rounds, run_bind_of_ok hrun]
      show (rounds loop name combine x _ (combine acc v) true (count + 1)).run w₁ = _
      rw [hfuel, hrest.run_rounds, List.foldl_cons, List.length_cons, List.isEmpty_cons,
        Bool.not_false, Bool.or_true, Nat.add_assoc count, Nat.add_comm 1]

section Separated

variable {y : Run τ ω (Outcome β)} {expected : List (Expected τ)}
  (hmoves : (continuation expected y x).Moves ruler false)
  (hfirst : x.run w = (.ok (.success v c), w₁))
  (hrepeats : (continuation expected y x).Repeats w₁ vs u) (name : String)
include hmoves hfirst hrepeats

/-- A list that has read a first value and a row of values behind separators is in its loop. -/
theorem exists_run_separated_of_repeats :
    ∃ fuel, (separated name expected x y).run w =
      (do
        let outcome ← rounds .separated name (fun vs v => v :: vs) (continuation expected y x)
          (fuel + 1) (vs.reverse ++ [v]) (c || !vs.isEmpty) (1 + vs.length)
        return outcome.map List.reverse).run u := by
  obtain ⟨fuel, hrounds⟩ := hrepeats.exists_run_rounds hmoves .separated name
    (fun vs v => v :: vs) [v] c 1
  refine ⟨fuel, ?_⟩
  have hloop : (separated name expected x y).run w =
      (do
        let outcome ← rounds .separated name (fun vs v => v :: vs) (continuation expected y x)
          (w₁.state.place.rest.length + 1) [v] c 1
        return outcome.map List.reverse).run w₁ := by
    rw [separated, run_bind_of_ok hfirst]
    rfl
  rw [hloop, run_bind, hrounds, List.foldl_flip_cons_eq_append']
  rfl

theorem run_separated_of_failure
    (hlast : (continuation expected y x).run u = (.ok (.failure false), u')) :
    (separated name expected x y).run w =
      (.ok (.success (v :: vs) (c || !vs.isEmpty)),
        { u' with events := .ended .separated (1 + vs.length) :: u'.events }) := by
  obtain ⟨fuel, hloop⟩ := exists_run_separated_of_repeats hmoves hfirst hrepeats name
  have hvalues : (vs.reverse ++ [v]).reverse = v :: vs := by simp
  rw [hloop, rounds, bind_assoc, run_bind_of_ok hlast, ← hvalues]
  rfl

theorem run_separated_of_committed
    (hlast : (continuation expected y x).run u = (.ok (.failure true), u')) :
    (separated name expected x y).run w = (.ok (.failure true), u') := by
  obtain ⟨fuel, hloop⟩ := exists_run_separated_of_repeats hmoves hfirst hrepeats name
  rw [hloop, rounds, bind_assoc, run_bind_of_ok hlast]
  rfl

theorem run_separated_of_error {reason : Stop}
    (hlast : (continuation expected y x).run u = (.error reason, u')) :
    (separated name expected x y).run w = (.error reason, u') := by
  obtain ⟨fuel, hloop⟩ := exists_run_separated_of_repeats hmoves hfirst hrepeats name
  rw [hloop, rounds, bind_assoc, run_bind_of_error hlast]

theorem run_separated_of_idle {v' : α}
    (hlast : (continuation expected y x).run u = (.ok (.success v' false), u')) :
    (separated name expected x y).run w =
      (.error (.fault (Loop.separated.fault name)),
        { u' with events := .looped .separated name u'.state.position :: u'.events }) := by
  obtain ⟨fuel, hloop⟩ := exists_run_separated_of_repeats hmoves hfirst hrepeats name
  rw [hloop, rounds, bind_assoc, run_bind_of_ok hlast]
  rfl

end Separated

end Run

namespace Parser

/-! ## One parser or another -/

section Fallback

variable {call : Calls τ ρ ω} {copy : Nat} {p q : Parser τ ρ ω α} {w w₁ w₂ : World τ ω}

theorem run_orElse_of_committed {outcome : Outcome α}
    (h : (p.eval ruler call copy).run w = (.ok outcome, w₁)) (hfinal : outcome.isCommitted = true) :
    ((orElse p q).eval ruler call copy).run w = (.ok outcome, w₁) := by
  rw [eval_orElse, Run.choice, Run.alternatives, Run.run_bind_of_ok h, if_pos hfinal]
  rfl

theorem run_orElse_of_error {reason : Stop}
    (h : (p.eval ruler call copy).run w = (.error reason, w₁)) :
    ((orElse p q).eval ruler call copy).run w = (.error reason, w₁) := by
  rw [eval_orElse, Run.choice, Run.alternatives, Run.run_bind_of_error h]

theorem run_orElse_of_failure {v : α} {c : Bool}
    (h : (p.eval ruler call copy).run w = (.ok (.failure false), w₁))
    (hq : (q.eval ruler call copy).run w₁ = (.ok (.success v c), w₂)) :
    ((orElse p q).eval ruler call copy).run w = (.ok (.success v c), w₂) := by
  rw [eval_orElse, Run.choice, Run.alternatives, Run.run_bind_of_ok h]
  exact Run.run_bind_of_ok hq

end Fallback

/-! ## Any number of values -/

section Many

variable {q : Parser τ ρ ω α} {call : Calls τ ρ ω} {copy : Nat} {w u u' : World τ ω} {vs : List α}

/-- The values of a chain, by the end of its row. -/
theorem run_many1_of_chainEnds (name : String) {r : Except Stop (Outcome (List α))}
    (hmoves : (q.eval ruler call copy).Moves ruler false)
    (h : Run.ChainEnds name [] (fun vs v => v :: vs) (q.eval ruler call copy) w r u) :
    ((many1 name q).eval ruler call copy).run w = (r.map (Outcome.map List.reverse), u) := by
  have hchain := h.run_eq hmoves
  rw [many1, eval_adapt, eval_chain]
  cases r with
  | error reason => exact Run.run_bind_of_error hchain
  | ok outcome => exact Run.run_bind_of_ok hchain

variable (hmoves : (q.eval ruler call copy).Moves ruler false)
  (hrepeats : (q.eval ruler call copy).Repeats w vs u) (name : String)
include hmoves hrepeats

theorem exists_run_many_of_failure
    (hlast : (q.eval ruler call copy).run u = (.ok (.failure false), u')) :
    ∃ w', ((many name q).eval ruler call copy).run w = (.ok (.success vs (!vs.isEmpty)), w') ∧
      w'.state = u'.state := by
  by_cases hvs : vs = []
  · -- the first attempt has failed, and what is tried instead leaves its error as it is
    subst hvs
    cases hrepeats
    have hmissing := run_many1_of_chainEnds name hmoves (.missing hlast)
    exact ⟨_, run_orElse_of_failure hmissing rfl, rfl⟩
  · have hended := run_many1_of_chainEnds name hmoves (.ended hvs hrepeats hlast)
    have houtcome : Outcome.map List.reverse (.success (vs.foldl (fun vs v => v :: vs) []) true) =
        .success vs (!vs.isEmpty) := by simp [Outcome.map, hvs]
    rw [← houtcome]
    exact ⟨_, run_orElse_of_committed hended rfl, rfl⟩

theorem run_many_of_committed
    (hlast : (q.eval ruler call copy).run u = (.ok (.failure true), u')) :
    ((many name q).eval ruler call copy).run w = (.ok (.failure true), u') :=
  run_orElse_of_committed (run_many1_of_chainEnds name hmoves (.broken hrepeats hlast)) rfl

theorem run_many_of_error {reason : Stop}
    (hlast : (q.eval ruler call copy).run u = (.error reason, u')) :
    ((many name q).eval ruler call copy).run w = (.error reason, u') :=
  run_orElse_of_error (run_many1_of_chainEnds name hmoves (.stopped hrepeats hlast))

/-- The fault may be found with one more attempt, but that attempt does not move either. -/
theorem exists_run_many_of_idle
    (hcouples : (q.eval ruler call copy).Couples (Coupling.byPlace ω ruler) False
      (q.eval ruler call copy)) {v : α}
    (hlast : (q.eval ruler call copy).run u = (.ok (.success v false), u')) :
    ∃ w', ((many name q).eval ruler call copy).run w =
        (.error (.fault (Loop.chain.fault name)), w') ∧ w'.state.place = u'.state.place := by
  obtain ⟨u₂, hfound⟩ := Run.exists_found hmoves hcouples hlast vs
  have hlooped := run_many1_of_chainEnds name hmoves (.looped hrepeats hlast hfound)
  refine ⟨_, run_orElse_of_error hlooped, ?_⟩
  rcases hfound with ⟨-, rfl⟩ | ⟨-, hagain⟩
  · rfl
  · show u₂.state.place = u'.state.place
    exact hmoves.place_eq hagain rfl

end Many

/-! ## The list and its parts -/

/-- What follows the first parser decides, with the flag of both. -/
theorem run_bind_of_success {p : Parser τ ρ ω α} {next : α → Parser τ ρ ω β} {f : α → β → γ}
    {call : Calls τ ρ ω} {copy : Nat} {w w₁ u : World τ ω} {v : α} {c : Bool}
    {r : Except Stop (Outcome β)}
    (hfirst : (p.eval ruler call copy).run w = (.ok (.success v c), w₁))
    (hnext : ((next v).eval ruler call copy).run w₁ = (r, u)) :
    ((bind f p next).eval ruler call copy).run w =
      (r.map fun outcome => (outcome.map (f v)).after c, u) := by
  rw [eval_bind, Run.dependent, Run.run_bind_of_ok hfirst]
  cases r with
  | error reason => exact Run.run_bind_of_error hnext
  | ok outcome => exact Run.run_bind_of_ok hnext

/-- **A list is what its parts make of it.** From any state, a list with separators and the parser
    that reads a value and then any number of separators with a value behind each give the same
    answer and end in the same state, with the same place and the same error. This holds for
    successes, for failures, and where a value or a separator stops.

    Only the fault of the loop itself differs, by the names in it: it is raised where a separator
    and a value have not consumed, behind a first value and a row of values that have, and it leaves
    both parsers at the same cursor and the same position. -/
theorem separated_agrees_with_bind (ruler : Ruler τ) (rules : Rules τ ρ ω) (depth : Nat)
    (p : Parser τ ρ ω α) (s : Parser τ ρ ω β) (copy : Nat) (name name' : String) (w : World τ ω) :
    let call := calls ruler rules depth
    let next := (keepSecond s p).eval ruler call copy
    ∃ r u r' u',
      ((separated name p s).eval ruler call copy).run w = (r, u) ∧
      ((bind List.cons p fun _ => many name' (keepSecond s p)).eval ruler call copy).run w =
        (r', u') ∧
      (r' = r ∧ u'.state = u.state ∨
        r = .error (.fault (Loop.separated.fault name)) ∧
        r' = .error (.fault (Loop.chain.fault name')) ∧
        u'.state.cursor = u.state.cursor ∧ u'.state.position = u.state.position ∧
        ∃ v c w₁ vs u₀ v' u₁, (p.eval ruler call copy).run w = (.ok (.success v c), w₁) ∧
          next.Repeats w₁ vs u₀ ∧ next.run u₀ = (.ok (.success v' false), u₁)) := by
  intro call next
  have hmoves : next.Moves ruler false := moves_eval_calls ruler rules depth _ copy
  have hcouples : next.Couples (Coupling.byPlace ω ruler) False next :=
    couples_eval_calls (Coupling.byPlace ω ruler) rules depth _ (fun _ => rfl) False
  rcases hfirst : (p.eval ruler call copy).run w with ⟨reason | ⟨v, c⟩ | c, w₁⟩
  · exact ⟨_, _, _, _, Run.run_bind_of_error hfirst, Run.run_bind_of_error hfirst, .inl ⟨rfl, rfl⟩⟩
  · obtain ⟨vs, u, hrepeats, hrow⟩ := Run.exists_repeats hmoves w₁
    rcases hlast : next.run u with ⟨reason | ⟨v', _ | _⟩ | _ | _, u'⟩
    · have hmany := run_many_of_error hmoves hrepeats name' hlast
      exact ⟨_, _, _, _, Run.run_separated_of_error hmoves hfirst hrepeats name hlast,
        run_bind_of_success hfirst hmany, .inl ⟨rfl, rfl⟩⟩
    · obtain ⟨w₂, hmany, hplace⟩ := exists_run_many_of_idle hmoves hrepeats name' hcouples hlast
      exact ⟨_, _, _, _, Run.run_separated_of_idle hmoves hfirst hrepeats name hlast,
        run_bind_of_success hfirst hmany, .inr ⟨rfl, rfl, congrArg Place.cursor hplace,
          congrArg Place.position hplace, v, c, w₁, vs, u, v', u', rfl, hrepeats, hlast⟩⟩
    · exact absurd hlast (hrow v' u')
    · obtain ⟨w₂, hmany, hstate⟩ := exists_run_many_of_failure hmoves hrepeats name' hlast
      refine ⟨_, _, _, _, Run.run_separated_of_failure hmoves hfirst hrepeats name hlast,
        run_bind_of_success hfirst hmany, .inl ⟨?_, hstate⟩⟩
      rw [Bool.or_comm]
      rfl
    · have hmany := run_many_of_committed hmoves hrepeats name' hlast
      exact ⟨_, _, _, _, Run.run_separated_of_committed hmoves hfirst hrepeats name hlast,
        run_bind_of_success hfirst hmany, .inl ⟨rfl, rfl⟩⟩
  · exact ⟨_, _, _, _, Run.run_bind_of_ok hfirst, Run.run_bind_of_ok hfirst, .inl ⟨rfl, rfl⟩⟩

end Parser

end CommittedChoice
