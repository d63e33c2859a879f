import CommittedChoice.Proofs.FurthestError

set_option autoImplicit false

/-! # Choices within choices

Neighbouring alternatives of a choice may be put into a choice of their own, and these again, to any
depth (`Parser.Grouped`). This changes neither what the choice expects nor how it answers.

A choice is settled in one of two ways. Either some alternative is the first that does not fail
without consuming (`Run.Decides`); then the choice does what that alternative does, and nothing after
it. Or all alternatives fail without consuming, and the furthest of their errors is reported. Both
ways can be told from the alternatives as they run alone, each from the state before the choice,
because an alternative depends on nothing but its place (`Run.Placewise`).

The first way passes through the groups at once: the group with the deciding alternative decides. For
the second way, a group has already picked the furthest of its errors and written other expectations
into it when the choice around it compares. That is the same because picking is associative
(`Run.further_assoc`) and does not look at expectations. The main statement is
`Parser.oneOf_grouped`. -/

namespace CommittedChoice

variable {τ ω α : Type} {ρ : Type → Type} {ruler : Ruler τ}

/-! ## The furthest error of a group -/

namespace Run

/-- Of three errors, it does not matter which two are compared first. -/
theorem further_assoc (best : Option (ParseError τ)) (e e' : ParseError τ) :
    further (some (further best e)) e' = further best (further (some e) e') := by
  cases best with
  | none => rfl
  | some b =>
      simp only [further]
      by_cases hbe : b.position < e.position <;> by_cases hee : e.position < e'.position
      · have hbe' : b.position < e'.position := Position.lt_trans hbe hee
        simp only [if_pos hbe, if_pos hee, if_pos hbe']
      · simp only [if_pos hbe, if_neg hee]
      · simp only [if_neg hbe, if_pos hee]
      · have hbe' : ¬ b.position < e'.position :=
          fun hlt => hee (Position.lt_of_not_lt_of_lt hbe hlt)
        simp only [if_neg hbe, if_neg hee, if_neg hbe']

/-- What was furthest before a group may be compared with the furthest error of the group. -/
theorem furthest_further (best : Option (ParseError τ)) (e : ParseError τ)
    (errors : List (ParseError τ)) :
    furthest (some (further best e)) errors = (furthest (some e) errors).map (further best) := by
  induction errors generalizing e with
  | nil => rfl
  | cons e' errors ih =>
      show furthest (some (further (some (further best e)) e')) errors = _
      rw [further_assoc, ih]
      rfl

theorem furthest_eq_of_furthest_none {errors : List (ParseError τ)} {error : ParseError τ}
    (h : furthest none errors = some error) (best : Option (ParseError τ)) :
    furthest best errors = some (further best error) := by
  cases errors with
  | nil => cases h
  | cons e errors =>
      have hgroup : furthest (some e) errors = some error := h
      show furthest (some (further best e)) errors = _
      rw [furthest_further, hgroup]
      rfl

theorem furthest_append (best : Option (ParseError τ)) (errors errors' : List (ParseError τ)) :
    furthest best (errors ++ errors') = furthest (furthest best errors) errors' :=
  List.foldl_append

/-- Errors are compared by their positions, whatever they expect. -/
theorem withExpected_further (best : Option (ParseError τ)) (e : ParseError τ)
    (expected : List (Expected τ)) :
    (further best e).withExpected expected =
      further (best.map (·.withExpected expected)) (e.withExpected expected) := by
  cases best with
  | none => rfl
  | some b => exact apply_ite (fun error : ParseError τ => error.withExpected expected) _ _ _

theorem map_withExpected_furthest (best : Option (ParseError τ)) (errors : List (ParseError τ))
    (expected : List (Expected τ)) :
    (furthest best errors).map (·.withExpected expected) =
      furthest (best.map (·.withExpected expected)) (errors.map (·.withExpected expected)) := by
  induction errors generalizing best with
  | nil => rfl
  | cons e errors ih =>
      show (furthest (some (further best e)) errors).map _ = _
      rw [ih, Option.map_some, withExpected_further]
      rfl

/-! ## Computations that depend on their place -/

/-- The computation tells by its flag whether it has moved, and its answer, its end and the error of
    a failure depend on the place where it starts alone. -/
structure Placewise (ruler : Ruler τ) (x : Run τ ω (Outcome α)) : Prop where
  moves : x.Moves ruler false
  couples : x.Couples (Coupling.byPlace ω ruler) False x

namespace Placewise

variable {x : Run τ ω (Outcome α)} {w u : World τ ω}

/-- From the same place, the computation gives the same answer, ends at the same place and, if it
    fails, leaves the same error. -/
theorem exists_run (hx : x.Placewise ruler) (hplace : w.state.place = u.state.place) :
    ∃ r v v', x.run w = (r, v) ∧ x.run u = (r, v') ∧ v.state.place = v'.state.place ∧
      (Failed r → v.state.error = v'.state.error) := by
  obtain ⟨r, v, v', hrun, hrun', hjoins⟩ := hx.couples (Coupling.joins_byPlace hplace)
  exact ⟨r, v, v', hrun, hrun', hjoins.place, fun hfailed => hjoins.error (.inr hfailed)⟩

theorem fst_run_eq (hx : x.Placewise ruler) (hplace : w.state.place = u.state.place) :
    (x.run w).1 = (x.run u).1 := by
  obtain ⟨r, v, v', hrun, hrun', -, -⟩ := hx.exists_run hplace
  rw [hrun, hrun']

end Placewise

/-! ## The alternative that decides -/

/-- From this world, the alternatives before this one fail without consuming, and this one does
    not. -/
inductive Decides (w : World τ ω) (x : Run τ ω (Outcome α)) :
    List (Run τ ω (Outcome α)) → Prop where
  | here {xs : List (Run τ ω (Outcome α))} (hfinal : (x.run w).1 ≠ .ok (.failure false)) :
      Decides w x (x :: xs)
  | later {y : Run τ ω (Outcome α)} {error : ParseError τ} {xs : List (Run τ ω (Outcome α))}
      (hfails : FailsWith w y error) (hrest : Decides w x xs) : Decides w x (y :: xs)

variable {w : World τ ω} {x : Run τ ω (Outcome α)} {xs ys : List (Run τ ω (Outcome α))}

theorem Decides.fst_run_ne (h : Decides w x xs) : (x.run w).1 ≠ .ok (.failure false) := by
  induction h with
  | here hfinal => exact hfinal
  | later _ _ ih => exact ih

theorem Decides.mem (h : Decides w x xs) : x ∈ xs := by
  induction h with
  | here => exact List.mem_cons_self
  | later _ _ ih => exact List.mem_cons_of_mem _ ih

/-- One of the alternatives decides, or all of them fail without consuming. -/
theorem exists_decides_or_failsWith (w : World τ ω) (xs : List (Run τ ω (Outcome α))) :
    (∃ x, Decides w x xs) ∨ ∃ errors, List.Forall₂ (FailsWith w) xs errors := by
  induction xs with
  | nil => exact .inr ⟨[], .nil⟩
  | cons x xs ih =>
      by_cases hfinal : (x.run w).1 = .ok (.failure false)
      · have hfails : FailsWith w x (x.run w).2.state.error := ⟨_, Prod.ext hfinal rfl, rfl⟩
        rcases ih with ⟨y, hy⟩ | ⟨errors, herrors⟩
        · exact .inl ⟨y, .later hfails hy⟩
        · exact .inr ⟨_ :: errors, .cons hfails herrors⟩
      · exact .inl ⟨x, .here hfinal⟩

theorem exists_append_of_failsWith {errors : List (ParseError τ)}
    (h : List.Forall₂ (FailsWith w) (xs ++ ys) errors) :
    ∃ es es', errors = es ++ es' ∧ List.Forall₂ (FailsWith w) xs es ∧
      List.Forall₂ (FailsWith w) ys es' :=
  ⟨errors.take xs.length, errors.drop xs.length, (List.take_append_drop _ _).symm,
    (List.forall₂_take_append errors xs ys h.flip).flip,
    (List.forall₂_drop_append errors xs ys h.flip).flip⟩

/-- Of two groups, the first one decides, or it fails as a whole and the second one does. -/
theorem decides_append (h : Decides w x (xs ++ ys)) :
    Decides w x xs ∨ (∃ errors, List.Forall₂ (FailsWith w) xs errors) ∧ Decides w x ys := by
  induction xs with
  | nil => exact .inr ⟨⟨[], .nil⟩, h⟩
  | cons y xs ih =>
      cases h with
      | here hfinal => exact .inl (.here hfinal)
      | later hfails hrest =>
          rcases ih hrest with hx | ⟨⟨errors, herrors⟩, hys⟩
          · exact .inl (.later hfails hx)
          · exact .inr ⟨⟨_ :: errors, .cons hfails herrors⟩, hys⟩

/-- The deciding alternative is run from the place of the choice, and nothing is run after it. -/
theorem Decides.exists_run_alternatives {exhausted : Option (ParseError τ) → Run τ ω (Outcome α)}
    (h : Decides w x xs) (hxs : ∀ y ∈ xs, y.Placewise ruler) {best : Option (ParseError τ)}
    {u : World τ ω} (hplace : w.state.place = u.state.place) :
    ∃ v, w.state.place = v.state.place ∧ (alternatives exhausted best xs).run u = x.run v := by
  induction h generalizing best u with
  | here hfinal =>
      refine ⟨u, hplace, ?_⟩
      rw [(hxs x List.mem_cons_self).fst_run_eq hplace] at hfinal
      rcases hrun : x.run u with ⟨reason | ⟨v, consumed⟩ | _ | _, u'⟩ <;> rw [hrun] at hfinal
      · exact run_bind_of_error hrun
      · exact run_bind_of_ok hrun
      · exact absurd rfl hfinal
      · exact run_bind_of_ok hrun
  | @later y error xs hfails _ ih =>
      have hy := hxs y List.mem_cons_self
      obtain ⟨u₁, hrun, -⟩ := hfails.of_same_place hy.couples hplace
      have hstay : u₁.state.place = u.state.place := hy.moves.place_eq hrun rfl
      obtain ⟨v, hv, hrest⟩ :=
        ih (fun z hz => hxs z (List.mem_cons_of_mem y hz)) (hplace.trans hstay.symm)
      exact ⟨v, hv, (run_bind_of_ok hrun).trans hrest⟩

end Run

namespace Parser

theorem placewise_eval_calls (ruler : Ruler τ) (rules : Rules τ ρ ω) (depth : Nat)
    (p : Parser τ ρ ω α) (copy : Nat) :
    (p.eval ruler (calls ruler rules depth) copy).Placewise ruler :=
  ⟨moves_eval_calls ruler rules depth p copy,
    couples_eval_calls (Coupling.byPlace ω ruler) rules depth p (fun _ => rfl) False⟩

/-! ## Groups -/

/-- The second list is the first one with neighbouring parsers put into choices of their own, which
    are not empty and whose alternatives may be grouped again. -/
inductive Grouped : List (Parser τ ρ ω α) → List (Parser τ ρ ω α) → Prop where
  | nil : Grouped [] []
  | single (p : Parser τ ρ ω α) {flat nested : List (Parser τ ρ ω α)}
      (hrest : Grouped flat nested) : Grouped (p :: flat) (p :: nested)
  | group {inner nestedInner flat nested : List (Parser τ ρ ω α)}
      (hinner : Grouped inner nestedInner) (hne : nestedInner ≠ []) (hrest : Grouped flat nested) :
      Grouped (inner ++ flat) (oneOf nestedInner :: nested)

theorem Grouped.union_expected_eq {flat nested : List (Parser τ ρ ω α)} (h : Grouped flat nested) :
    Expected.union (nested.map expected) = Expected.union (flat.map expected) := by
  induction h with
  | nil => rfl
  | single p _ ih =>
      simp only [Expected.union, List.map_cons, List.flatten_cons] at ih ⊢
      rw [ih]
  | group _ _ _ ihinner ihrest =>
      simp only [Expected.union] at ihinner ihrest
      simp only [Expected.union, List.map_cons, List.flatten_cons, List.map_append,
        List.flatten_append, expected_oneOf, ihinner, ihrest]

section Runs

variable (ruler : Ruler τ) (rules : Rules τ ρ ω) (depth copy : Nat) {w : World τ ω}
  {x : Run τ ω (Outcome α)} {ps flat nested : List (Parser τ ρ ω α)}

/-- How the parsers of a list run. -/
def evals (ps : List (Parser τ ρ ω α)) : List (Run τ ω (Outcome α)) :=
  ps.map fun p => p.eval ruler (calls ruler rules depth) copy

variable {ruler rules depth copy}

theorem placewise_of_mem_evals (h : x ∈ evals ruler rules depth copy ps) : x.Placewise ruler := by
  obtain ⟨p, -, rfl⟩ := List.mem_map.1 h
  exact placewise_eval_calls ruler rules depth p copy

theorem exists_split_of_decides (h : Run.Decides w x (evals ruler rules depth copy ps)) :
    ∃ before p after errors, ps = before ++ p :: after ∧
      x = p.eval ruler (calls ruler rules depth) copy ∧
      List.Forall₂ (Run.FailsWith w) (evals ruler rules depth copy before) errors := by
  induction ps with
  | nil => cases h
  | cons q ps ih =>
      cases h with
      | here => exact ⟨[], q, ps, [], rfl, rfl, .nil⟩
      | later hfails hrest =>
          obtain ⟨before, p, after, errors, rfl, hx, herrors⟩ := ih hrest
          exact ⟨q :: before, p, after, _ :: errors, rfl, hx, .cons hfails herrors⟩

/-- A choice does what the deciding alternative does. -/
theorem exists_run_oneOf_of_decides (h : Run.Decides w x (evals ruler rules depth copy ps))
    {u : World τ ω} (hplace : w.state.place = u.state.place) :
    ∃ v, w.state.place = v.state.place ∧
      ((oneOf ps).eval ruler (calls ruler rules depth) copy).run u = x.run v := by
  rw [eval_oneOf]
  exact h.exists_run_alternatives (fun _ => placewise_of_mem_evals) hplace

/-- A choice all of whose alternatives fail without consuming fails with the furthest error. -/
theorem exists_failsWith_oneOf {errors : List (ParseError τ)}
    (h : List.Forall₂ (Run.FailsWith w) (evals ruler rules depth copy ps) errors) (hne : ps ≠ []) :
    ∃ error, Run.furthest none errors = some error ∧ ParseError.FirstFurthest errors error ∧
      Run.FailsWith w ((oneOf ps).eval ruler (calls ruler rules depth) copy)
        (error.withExpected (oneOf ps).expected) := by
  have hfails := List.forall₂_map_left_iff.1 h
  have herrors : errors ≠ [] := by
    rintro rfl
    exact hne (List.forall₂_nil_right_iff.1 hfails)
  obtain ⟨error, hfurthest, hfirst⟩ := Run.exists_furthest_of_ne_nil herrors
  obtain ⟨v, hrun, herror⟩ := exists_run_oneOf ruler rules depth hfails
  rw [hfurthest] at herror
  exact ⟨error, hfurthest, hfirst, v, hrun, herror⟩

/-- If the alternatives fail without consuming, then so do the groups. Expectations apart, the
    furthest of their errors is the same, also if an error before them is compared with it. -/
theorem Grouped.exists_failsWith (h : Grouped flat nested) {errors : List (ParseError τ)}
    (hfails : List.Forall₂ (Run.FailsWith w) (evals ruler rules depth copy flat) errors) :
    ∃ errors', List.Forall₂ (Run.FailsWith w) (evals ruler rules depth copy nested) errors' ∧
      ∀ best expected, (Run.furthest best errors').map (·.withExpected expected) =
        (Run.furthest best errors).map (·.withExpected expected) := by
  induction h generalizing errors with
  | nil => exact ⟨errors, hfails, fun _ _ => rfl⟩
  | single p _ ih =>
      cases hfails with
      | @cons _ error _ errors hfail hrest =>
          obtain ⟨errors', hfails', hsame⟩ := ih hrest
          exact ⟨error :: errors', .cons hfail hfails', fun best => hsame _⟩
  | @group inner nestedInner flat nested _ hne _ ihinner ihrest =>
      rw [evals, List.map_append] at hfails
      obtain ⟨es, es', rfl, hes, hes'⟩ := Run.exists_append_of_failsWith hfails
      obtain ⟨is, his, hsame⟩ := ihinner hes
      obtain ⟨rs, hrs, hsame'⟩ := ihrest hes'
      obtain ⟨error, hfurthest, -, hgroup⟩ := exists_failsWith_oneOf his hne
      refine ⟨_ :: rs, .cons hgroup hrs, fun best expected => ?_⟩
      generalize (oneOf nestedInner).expected = own
      -- the error of the group is the furthest one of its flat alternatives, but for expectations
      obtain ⟨error', hfurthest', herror⟩ : ∃ error', Run.furthest none es = some error' ∧
          error'.withExpected expected = error.withExpected expected := by
        have hmap := hsame none expected
        rw [hfurthest] at hmap
        exact Option.map_eq_some_iff.1 hmap.symm
      have hbest : (some (Run.further best (error.withExpected own))).map
          (·.withExpected expected) = (Run.furthest best es).map (·.withExpected expected) := by
        rw [Run.furthest_eq_of_furthest_none hfurthest', Option.map_some, Option.map_some,
          Run.withExpected_further, Run.withExpected_further, herror]
        rfl
      calc (Run.furthest (some (Run.further best (error.withExpected own))) rs).map
            (·.withExpected expected)
        _ = (Run.furthest (some (Run.further best (error.withExpected own))) es').map
              (·.withExpected expected) := hsame' _ expected
        _ = Run.furthest ((Run.furthest best es).map (·.withExpected expected))
              (es'.map (·.withExpected expected)) := by
            rw [Run.map_withExpected_furthest, hbest]
        _ = (Run.furthest best (es ++ es')).map (·.withExpected expected) := by
            rw [Run.furthest_append, ← Run.map_withExpected_furthest]

/-- If an alternative decides, then the group decides in which it is, and does the same. -/
theorem Grouped.exists_decides (h : Grouped flat nested)
    (hx : Run.Decides w x (evals ruler rules depth copy flat)) :
    ∃ y, Run.Decides w y (evals ruler rules depth copy nested) ∧
      ∀ u, w.state.place = u.state.place → ∃ v, w.state.place = v.state.place ∧
        y.run u = x.run v := by
  have hplacewise : x.Placewise ruler := placewise_of_mem_evals hx.mem
  induction h with
  | nil => cases hx
  | single p _ ih =>
      cases hx with
      | here hfinal => exact ⟨_, .here hfinal, fun u hu => ⟨u, hu, rfl⟩⟩
      | later hfails hrest =>
          obtain ⟨y, hy, hsame⟩ := ih hrest
          exact ⟨y, .later hfails hy, hsame⟩
  | @group inner nestedInner flat nested hinner hne _ ihinner ihrest =>
      rw [evals, List.map_append] at hx
      rcases Run.decides_append hx with hx | ⟨⟨errors, herrors⟩, hx⟩
      · obtain ⟨y, hy, hsame⟩ := ihinner hx
        have hgroup : ∀ u, w.state.place = u.state.place → ∃ v, w.state.place = v.state.place ∧
            ((oneOf nestedInner).eval ruler (calls ruler rules depth) copy).run u = x.run v := by
          intro u hu
          obtain ⟨v, hv, hrun⟩ := exists_run_oneOf_of_decides hy hu
          obtain ⟨v', hv', hrun'⟩ := hsame v hv
          exact ⟨v', hv', hrun.trans hrun'⟩
        refine ⟨_, .here ?_, hgroup⟩
        obtain ⟨v, hv, hrun⟩ := hgroup w rfl
        rw [hrun, ← hplacewise.fst_run_eq hv]
        exact hx.fst_run_ne
      · obtain ⟨is, his, -⟩ := hinner.exists_failsWith herrors
        obtain ⟨error, -, -, hgroup⟩ := exists_failsWith_oneOf his hne
        obtain ⟨y, hy, hsame⟩ := ihrest hx
        exact ⟨y, .later hgroup hy, hsame⟩

end Runs

/-- **Choices are associative.** Put neighbouring alternatives of a choice into non-empty choices of
    their own, to any depth. The choice expects what it expected before, and from any state it gives
    the same answer, at the same cursor and position, and fails with the same error.

    If some alternative is the first that does not fail without consuming, then the choice, flat or
    nested, does what this alternative does from the place of the choice, and nothing after it.
    Otherwise the choice does not move, and its error is the first of those that lie furthest, with
    the expectations of all alternatives. -/
theorem oneOf_grouped {flat nested : List (Parser τ ρ ω α)} (h : Grouped flat nested)
    (ruler : Ruler τ) (rules : Rules τ ρ ω) (depth copy : Nat) (w : World τ ω) :
    let eval (p : Parser τ ρ ω α) := p.eval ruler (calls ruler rules depth) copy
    (oneOf nested).expected = (oneOf flat).expected ∧
    (∃ r v v', (eval (oneOf flat)).run w = (r, v) ∧ (eval (oneOf nested)).run w = (r, v') ∧
      v'.state.cursor = v.state.cursor ∧ v'.state.position = v.state.position ∧
      ∀ consumed, r = .ok (.failure consumed) → v'.state.error = v.state.error) ∧
    ((∃ before p after errors, flat = before ++ p :: after ∧
        List.Forall₂ (fun q error => Run.FailsWith w (eval q) error) before errors ∧
        ((eval p).run w).1 ≠ .ok (.failure false) ∧
        ∃ u u', u.state.place = w.state.place ∧ u'.state.place = w.state.place ∧
          (eval (oneOf flat)).run w = (eval p).run u ∧
          (eval (oneOf nested)).run w = (eval p).run u') ∨
      ∃ errors v v', List.Forall₂ (fun q error => Run.FailsWith w (eval q) error) flat errors ∧
        (eval (oneOf flat)).run w = (.ok (.failure false), v) ∧
        (eval (oneOf nested)).run w = (.ok (.failure false), v') ∧
        v.state.place = w.state.place ∧ v'.state.place = w.state.place ∧
        (flat ≠ [] → ∃ error, ParseError.FirstFurthest errors error ∧
          v.state.error = error.withExpected (flat.flatMap expected))) := by
  intro eval
  have hexpected : (oneOf nested).expected = (oneOf flat).expected := by
    rw [expected_oneOf, expected_oneOf, h.union_expected_eq]
  refine ⟨hexpected, ?_⟩
  rcases Run.exists_decides_or_failsWith w (evals ruler rules depth copy flat) with
    ⟨x, hx⟩ | ⟨errors, hfails⟩
  · obtain ⟨y, hy, hsame⟩ := h.exists_decides hx
    obtain ⟨u, hu, hflat⟩ := exists_run_oneOf_of_decides hx rfl
    obtain ⟨u₁, hu₁, hgroup⟩ := exists_run_oneOf_of_decides hy rfl
    obtain ⟨u', hu', hinner⟩ := hsame u₁ hu₁
    have hnested := hgroup.trans hinner
    obtain ⟨r, v, v', hrun, hrun', hplace, herror⟩ :=
      (placewise_of_mem_evals hx.mem).exists_run (hu.symm.trans hu')
    refine ⟨⟨r, v, v', hflat.trans hrun, hnested.trans hrun', ?_, ?_, ?_⟩, .inl ?_⟩
    · exact congrArg Place.cursor hplace.symm
    · exact congrArg Place.position hplace.symm
    · exact fun consumed hr => (herror ⟨consumed, hr⟩).symm
    · obtain ⟨before, p, after, errors, hsplit, rfl, hbefore⟩ := exists_split_of_decides hx
      exact ⟨before, p, after, errors, hsplit, List.forall₂_map_left_iff.1 hbefore, hx.fst_run_ne,
        u, u', hu.symm, hu'.symm, hflat, hnested⟩
  · obtain ⟨errors', hfails', hsame⟩ := h.exists_failsWith hfails
    have hflat := List.forall₂_map_left_iff.1 hfails
    obtain ⟨v, hrun, herror⟩ := exists_run_oneOf ruler rules depth hflat
    obtain ⟨v', hrun', herror'⟩ :=
      exists_run_oneOf ruler rules depth (List.forall₂_map_left_iff.1 hfails')
    have hplace := (moves_eval_calls ruler rules depth (oneOf flat) copy).place_eq hrun rfl
    have hplace' := (moves_eval_calls ruler rules depth (oneOf nested) copy).place_eq hrun' rfl
    refine ⟨⟨_, v, v', hrun, hrun', ?_, ?_, fun _ _ => ?_⟩,
      .inr ⟨errors, v, v', hflat, hrun, hrun', hplace, hplace', fun hne => ?_⟩⟩
    · exact congrArg Place.cursor (hplace'.trans hplace.symm)
    · exact congrArg Place.position (hplace'.trans hplace.symm)
    · have hbest := hsame none (oneOf flat).expected
      rw [herror, herror', hexpected]
      generalize Run.furthest none errors = best at hbest ⊢
      generalize Run.furthest none errors' = best' at hbest ⊢
      rcases best with _ | error <;> rcases best' with _ | error'
      · rfl
      · cases hbest
      · cases hbest
      · exact Option.some.inj hbest
    · obtain ⟨error, hfurthest, hfirst, -⟩ := exists_failsWith_oneOf hfails hne
      rw [hfurthest] at herror
      refine ⟨error, hfirst, herror.trans ?_⟩
      rw [expected_oneOf, Expected.union, List.flatMap_def]

/-- The second alternative gets furthest. It stands alone in a choice within a choice, and still its
    error is the one that is reported, with the expectations of all three alternatives. -/
theorem oneOf_grouped_furthest_inside :
    let p (text : List Char) : Parser Char (fun _ => Empty) Unit (List Char) := safe (tokens text)
    let flat := [p ['a', 'x'], p ['a', 'b', 'x'], p ['a', 'y']]
    let nested := [oneOf [p ['a', 'x'], oneOf [p ['a', 'b', 'x']]], p ['a', 'y']]
    let ruler := Ruler.ofString (TextLayout.next {})
    let w : World Char Unit := ⟨State.initial Position.first ['a', 'b', 'c'], [], .empty⟩
    Grouped flat nested ∧
    ∃ v v', ((oneOf flat).eval ruler (calls ruler (fun _ => Empty.elim) 0) 0).run w =
        (.ok (.failure false), v) ∧
      ((oneOf nested).eval ruler (calls ruler (fun _ => Empty.elim) 0) 0).run w =
        (.ok (.failure false), v') ∧
      v'.state.error = v.state.error ∧ v.state.error.position = ⟨1, 3⟩ ∧
      v.state.error.cause.unexpected = some 'c' ∧ v.state.error.expected.length = 3 := by
  intro p flat nested ruler w
  have hinner : Grouped [p ['a', 'x'], p ['a', 'b', 'x']]
      [p ['a', 'x'], oneOf [p ['a', 'b', 'x']]] :=
    .single _ (.group (.single _ .nil) (List.cons_ne_nil _ _) .nil)
  have hgrouped : Grouped flat nested :=
    .group hinner (List.cons_ne_nil _ _) (.single _ .nil)
  have hrun : ((oneOf flat).eval ruler (calls ruler (fun _ => Empty.elim) 0) 0).run w =
      (.ok (.failure false), _) := rfl
  obtain ⟨-, ⟨r, v, v', hflat, hnested, -, -, herror⟩, -⟩ :=
    oneOf_grouped hgrouped ruler (fun _ => Empty.elim) 0 0 w
  rw [hrun] at hflat
  obtain ⟨rfl, rfl⟩ := Prod.mk.inj hflat
  exact ⟨hgrouped, _, v', hrun, hnested, herror false rfl, rfl, rfl, rfl⟩

/-- After a success, the error of an alternative that failed before is still there, and a group has
    written its own expectations into it. -/
theorem oneOf_grouped_leftover_error :
    let flat : List (Parser Char (fun _ => Empty) Unit Char) := [token 'a', token 'b', token 'c']
    let nested := [oneOf [token 'a', token 'b'], token 'c']
    let ruler := Ruler.ofString (TextLayout.next {})
    let w : World Char Unit := ⟨State.initial Position.first ['c'], [], .empty⟩
    Grouped flat nested ∧
    ∃ v v', ((oneOf flat).eval ruler (calls ruler (fun _ => Empty.elim) 0) 0).run w =
        (.ok (.success 'c' true), v) ∧
      ((oneOf nested).eval ruler (calls ruler (fun _ => Empty.elim) 0) 0).run w =
        (.ok (.success 'c' true), v') ∧
      v'.state.error ≠ v.state.error := by
  intro flat nested ruler w
  refine ⟨.group (.single _ (.single _ .nil)) (List.cons_ne_nil _ _) (.single _ .nil), _, _, rfl, rfl,
    fun h => ?_⟩
  have hlength : 2 = 1 := congrArg (fun error : ParseError Char => error.expected.length) h
  cases hlength

end Parser

end CommittedChoice
