import Mathlib.Data.List.Forall2
import CommittedChoice.Proofs.ErrorCauses
import CommittedChoice.Proofs.Noninterference
import CommittedChoice.Proofs.Positions

set_option autoImplicit false

/-! # The furthest error

A choice whose alternatives all fail reports the error of one of them. It compares the positions of
the errors and takes a later one only if it lies further on, so that it ends with the first of those
that lie furthest (`ParseError.FirstFurthest`). An alternative is tried after others have failed and
have left their errors behind, but it fails as if it were tried alone
(`Run.FailsWith.of_same_place`).

A position is a line and a column, and what the author of a text means by "further" is an offset. The
two agree: an error describes a place of the input, and positions are ordered like places. So an
error lies at one offset (`ParseError.LiesAt`), and the choice reports the first of the errors at the
largest offset. The main statement is `Parser.oneOf_reports_furthest`. -/

namespace CommittedChoice

variable {τ ω α : Type} {ruler : Ruler τ}

/-! ## The first of the furthest errors -/

/-- Of the errors in the list, those before this one lie less far and those behind it no further. -/
def ParseError.FirstFurthest (errors : List (ParseError τ)) (error : ParseError τ) : Prop :=
  ∃ before after, errors = before ++ error :: after ∧
    (∀ e ∈ before, e.position < error.position) ∧ ∀ e ∈ after, ¬ error.position < e.position

/-- The furthest error, if `best` is the furthest one before. -/
def Run.furthest (best : Option (ParseError τ)) (errors : List (ParseError τ)) :
    Option (ParseError τ) :=
  errors.foldl (fun best error => some (further best error)) best

namespace ParseError.FirstFurthest

theorem singleton (error : ParseError τ) : FirstFurthest [error] error :=
  ⟨[], [], rfl, nofun, nofun⟩

/-- One more error either takes the place of the furthest one or is no further. -/
theorem further {errors : List (ParseError τ)} {best : ParseError τ}
    (h : FirstFurthest errors best) (error : ParseError τ) :
    FirstFurthest (errors ++ [error]) (Run.further (some best) error) := by
  obtain ⟨before, after, rfl, hbefore, hafter⟩ := h
  simp only [Run.further]
  split
  · next hlt =>
      refine ⟨before ++ best :: after, [], rfl, fun e he => ?_, by simp⟩
      rcases List.mem_append.1 he with he | he
      · exact Position.lt_trans (hbefore e he) hlt
      · rcases List.mem_cons.1 he with rfl | he
        · exact hlt
        · exact Position.lt_of_not_lt_of_lt (hafter e he) hlt
  · next hge =>
      refine ⟨before, after ++ [error], by simp, hbefore, fun e he => ?_⟩
      rcases List.mem_append.1 he with he | he
      · exact hafter e he
      · obtain rfl := List.mem_singleton.1 he
        exact hge

/-- The furthest error of a list, where `best` is the furthest one of those seen before. -/
theorem exists_furthest {seen errors : List (ParseError τ)} {best : ParseError τ}
    (h : FirstFurthest seen best) :
    ∃ error, Run.furthest (some best) errors = some error ∧
      FirstFurthest (seen ++ errors) error := by
  induction errors generalizing seen best with
  | nil => exact ⟨best, rfl, by simpa using h⟩
  | cons e errors ih =>
      obtain ⟨error, hfold, hfirst⟩ := ih (h.further e)
      exact ⟨error, hfold, by simpa using hfirst⟩

end ParseError.FirstFurthest

theorem Run.exists_furthest_of_ne_nil {errors : List (ParseError τ)} (h : errors ≠ []) :
    ∃ error, furthest none errors = some error ∧ ParseError.FirstFurthest errors error := by
  obtain ⟨e, errors, rfl⟩ := List.exists_cons_of_ne_nil h
  exact (ParseError.FirstFurthest.singleton e).exists_furthest

/-! ## Alternatives that fail -/

/-- From this world the computation fails without consuming, and with this error. -/
def Run.FailsWith (w : World τ ω) (x : Run τ ω (Outcome α)) (error : ParseError τ) : Prop :=
  ∃ v, x.run w = (.ok (.failure false), v) ∧ v.state.error = error

namespace Run

/-- What was reported, resolved and written before does not matter for how a computation fails. -/
theorem FailsWith.of_same_place {x : Run τ ω (Outcome α)} {w u : World τ ω} {error : ParseError τ}
    (hcouples : x.Couples (Coupling.byPlace ω ruler) False x) (h : FailsWith w x error)
    (hplace : w.state.place = u.state.place) : FailsWith u x error := by
  obtain ⟨v, hrun, rfl⟩ := h
  obtain ⟨r, v₁, v', hfirst, hsecond, hjoins⟩ := hcouples (Coupling.joins_byPlace hplace)
  rw [hrun] at hfirst
  obtain ⟨rfl, rfl⟩ := Prod.mk.inj hfirst
  exact ⟨v', hsecond, (hjoins.error (.inr ⟨false, rfl⟩)).symm⟩

/-- Alternatives that all fail without consuming are all tried from the same place. -/
theorem exists_run_alternatives {exhausted : Option (ParseError τ) → Run τ ω (Outcome α)}
    {xs : List (Run τ ω (Outcome α))} {errors : List (ParseError τ)} {w : World τ ω}
    (hfails : List.Forall₂ (FailsWith w) xs errors) (hmoves : ∀ x ∈ xs, x.Moves ruler false)
    (hcouples : ∀ x ∈ xs, x.Couples (Coupling.byPlace ω ruler) False x)
    {best : Option (ParseError τ)} {u : World τ ω} (hplace : w.state.place = u.state.place) :
    ∃ v, w.state.place = v.state.place ∧
      (alternatives exhausted best xs).run u = (exhausted (furthest best errors)).run v := by
  induction hfails generalizing best u with
  | nil => exact ⟨u, hplace, rfl⟩
  | @cons x error xs errors hfail _ ih =>
      obtain ⟨u₁, hrun, rfl⟩ := hfail.of_same_place (hcouples x List.mem_cons_self) hplace
      have hstay : u₁.state.place = u.state.place :=
        (hmoves x List.mem_cons_self).place_eq hrun rfl
      obtain ⟨v, hv, hrest⟩ := ih (fun y hy => hmoves y (List.mem_cons_of_mem x hy))
        (fun y hy => hcouples y (List.mem_cons_of_mem x hy)) (hplace.trans hstay.symm)
      exact ⟨v, hv, (run_bind_of_ok hrun).trans hrest⟩

/-- A choice whose alternatives all fail without consuming reports the furthest error. -/
theorem exists_run_choice {expected : List (Expected τ)} {xs : List (Run τ ω (Outcome α))}
    {errors : List (ParseError τ)} {w : World τ ω}
    (hfails : List.Forall₂ (FailsWith w) xs errors) (hmoves : ∀ x ∈ xs, x.Moves ruler false)
    (hcouples : ∀ x ∈ xs, x.Couples (Coupling.byPlace ω ruler) False x) :
    ∃ v, (choice expected xs).run w = (.ok (.failure false), v) ∧
      v.state.error = match furthest none errors with
        | none => ⟨⟨none, w.state.position, false⟩, expected, noAlternativeMessage⟩
        | some error => error.withExpected expected := by
  obtain ⟨v, hplace, hrun⟩ := exists_run_alternatives hfails hmoves hcouples rfl
  have hchoice : (choice expected xs).run w = _ := hrun
  generalize furthest none errors = best at hchoice ⊢
  cases best with
  | none =>
      refine ⟨_, hchoice, ?_⟩
      simp only [State.position, hplace]
      rfl
  | some error => exact ⟨_, hchoice, rfl⟩

end Run

/-! ## Where errors lie -/

/-- The position of the error is the one of the place at this offset. -/
def ParseError.LiesAt (input : Input τ) (offset : Nat) (error : ParseError τ) : Prop :=
  ∃ q : Place τ, q.LiesIn input ∧ q.cursor = offset ∧ error.position = q.position

namespace ParseError.LiesAt

variable {input : Input τ} {error error' : ParseError τ} {offset offset' : Nat}

/-- Of two errors, the one with the larger position lies at the larger offset. -/
theorem position_lt_iff (hruler : input.ruler.Ascends) (h : error.LiesAt input offset)
    (h' : error'.LiesAt input offset') : error.position < error'.position ↔ offset < offset' := by
  obtain ⟨q, hq, rfl, hposition⟩ := h
  obtain ⟨q', hq', rfl, hposition'⟩ := h'
  rw [hposition, hposition']
  exact hq.position_lt_iff hruler hq'

theorem unique (hruler : input.ruler.Ascends) (h : error.LiesAt input offset)
    (h' : error.LiesAt input offset') : offset = offset' := by
  have hge : ¬ offset < offset' := fun hlt =>
    Position.lt_irrefl _ ((h.position_lt_iff hruler h').2 hlt)
  have hle : ¬ offset' < offset := fun hlt =>
    Position.lt_irrefl _ ((h'.position_lt_iff hruler h).2 hlt)
  omega

end ParseError.LiesAt

/-- A failure describes a place of the input, and so its error lies somewhere. -/
theorem Run.FailsWith.exists_liesAt {x : Run τ ω (Outcome α)} {input : Input τ} {w : World τ ω}
    {error : ParseError τ} (h : FailsWith w x error) (hx : x.FailsTruly input.ruler)
    (hw : w.state.place.LiesIn input) : ∃ offset, error.LiesAt input offset := by
  obtain ⟨v, hrun, rfl⟩ := h
  obtain ⟨ts, q, hpass, htrue⟩ := hx hrun
  exact ⟨q.cursor, q, hw.passes hpass, rfl, htrue.position_eq⟩

/-- The first of the furthest errors is the first one at the largest offset. -/
theorem ParseError.FirstFurthest.exists_offset {input : Input τ} (hruler : input.ruler.Ascends)
    {errors : List (ParseError τ)} {error : ParseError τ} (h : FirstFurthest errors error)
    (hlies : ∀ e ∈ errors, ∃ offset, e.LiesAt input offset) :
    ∃ before after offset, errors = before ++ error :: after ∧ error.LiesAt input offset ∧
      (∀ e ∈ before, ∀ k, e.LiesAt input k → k < offset) ∧
      ∀ e ∈ after, ∀ k, e.LiesAt input k → k ≤ offset := by
  obtain ⟨before, after, rfl, hbefore, hafter⟩ := h
  obtain ⟨offset, hoffset⟩ := hlies error (by simp)
  refine ⟨before, after, offset, rfl, hoffset, fun e he k hk => ?_, fun e he k hk => ?_⟩
  · exact (hk.position_lt_iff hruler hoffset).1 (hbefore e he)
  · exact Nat.not_lt.1 fun hlt => hafter e he ((hoffset.position_lt_iff hruler hk).2 hlt)

namespace Parser

variable {ρ : Type → Type}

theorem exists_run_oneOf (ruler : Ruler τ) (rules : Rules τ ρ ω) (depth : Nat)
    {ps : List (Parser τ ρ ω α)} {copy : Nat} {w : World τ ω} {errors : List (ParseError τ)}
    (hfails : List.Forall₂ (fun p error =>
      Run.FailsWith w (p.eval ruler (calls ruler rules depth) copy) error) ps errors) :
    ∃ v, ((oneOf ps).eval ruler (calls ruler rules depth) copy).run w =
        (.ok (.failure false), v) ∧
      v.state.error = match Run.furthest none errors with
        | none => ⟨⟨none, w.state.position, false⟩, (oneOf ps).expected, Run.noAlternativeMessage⟩
        | some error => error.withExpected (oneOf ps).expected := by
  have hmoves : ∀ x ∈ ps.map (fun p => p.eval ruler (calls ruler rules depth) copy),
      x.Moves ruler false := by
    intro x hx
    obtain ⟨p, -, rfl⟩ := List.mem_map.1 hx
    exact moves_eval_calls ruler rules depth p copy
  have hcouples : ∀ x ∈ ps.map (fun p => p.eval ruler (calls ruler rules depth) copy),
      x.Couples (Coupling.byPlace ω ruler) False x := by
    intro x hx
    obtain ⟨p, -, rfl⟩ := List.mem_map.1 hx
    exact couples_eval_calls (Coupling.byPlace ω ruler) rules depth p (fun _ => rfl) False
  rw [eval_oneOf]
  exact Run.exists_run_choice (List.forall₂_map_left_iff.2 hfails) hmoves hcouples

theorem exists_liesAt_of_mem {input : Input τ} {rules : Rules τ ρ ω} {depth : Nat}
    {ps : List (Parser τ ρ ω α)} {copy : Nat} {w : World τ ω} {errors : List (ParseError τ)}
    (hfails : List.Forall₂ (fun p error =>
      Run.FailsWith w (p.eval input.ruler (calls input.ruler rules depth) copy) error) ps errors)
    (hw : w.state.place.LiesIn input) : ∀ e ∈ errors, ∃ offset, e.LiesAt input offset := by
  induction hfails with
  | nil => exact nofun
  | @cons p error ps errors hfail _ ih =>
      intro e he
      rcases List.mem_cons.1 he with rfl | he
      · exact hfail.exists_liesAt (failsTruly_eval_calls input.ruler rules depth p copy) hw
      · exact ih e he

/-- **The furthest error is the furthest one.** Over a text with a usable configuration, of two places
    the one further on has the larger position, whatever the start. So each error of an alternative
    lies at one offset, and a choice whose alternatives all fail without consuming reports the cause
    and the message of the first alternative among those whose errors lie at the largest offset. A
    choice without alternatives says so. -/
theorem oneOf_reports_furthest {config : Config} (hconfig : config.validate = .ok ())
    (text : String) (start : Position) :
    let input := (Input.ofStringWith config text).startingAt start
    (∀ final, input.ruler.positionAfter start input.tokens = some final →
      ∀ past ts rest, input.tokens = past ++ ts ++ rest → ts ≠ [] →
        ∃ p q, input.ruler.positionAfter start past = some p ∧
          input.ruler.positionAfter start (past ++ ts) = some q ∧ p < q) ∧
    ∀ {ρ : Type → Type} {ω α : Type} (rules : Rules Char ρ ω) (depth : Nat)
      (ps : List (Parser Char ρ ω α)) (copy : Nat) (w : World Char ω)
      (errors : List (ParseError Char)), w.state.place.LiesIn input →
      List.Forall₂ (fun p error =>
        Run.FailsWith w (p.eval input.ruler (calls input.ruler rules depth) copy) error) ps errors →
      ∃ v, ((oneOf ps).eval input.ruler (calls input.ruler rules depth) copy).run w =
          (.ok (.failure false), v) ∧
        (∀ e ∈ errors, ∃ offset, ∀ k, e.LiesAt input k ↔ k = offset) ∧
        (ps = [] → v.state.error =
          ⟨⟨none, w.state.position, false⟩, [], Run.noAlternativeMessage⟩) ∧
        (ps ≠ [] → ∃ before error after offset, errors = before ++ error :: after ∧
          v.state.error.cause = error.cause ∧ v.state.error.message = error.message ∧
          error.LiesAt input offset ∧
          (∀ e ∈ before, ∀ k, e.LiesAt input k → k < offset) ∧
          ∀ e ∈ after, ∀ k, e.LiesAt input k → k ≤ offset) := by
  intro input
  have hruler : input.ruler.Ascends :=
    Ruler.ascends_of_layout ((Config.validate_eq_ok_iff config).1 hconfig).1
  refine ⟨fun final hfinal past ts rest htokens hts => ?_, ?_⟩
  · rw [htokens, Ruler.positionAfter_append, Option.bind_eq_some_iff] at hfinal
    obtain ⟨q, hq, -⟩ := hfinal
    have hboth := hq
    rw [Ruler.positionAfter_append, Option.bind_eq_some_iff] at hboth
    obtain ⟨p, hp, hpq⟩ := hboth
    exact ⟨p, q, hp, hq, hruler.lt_of_positionAfter hts hpq⟩
  · intro ρ ω α rules depth ps copy w errors hw hfails
    have hlies := exists_liesAt_of_mem hfails hw
    obtain ⟨v, hrun, herror⟩ := exists_run_oneOf input.ruler rules depth hfails
    refine ⟨v, hrun, fun e he => ?_, ?_, fun hne => ?_⟩
    · obtain ⟨offset, hoffset⟩ := hlies e he
      exact ⟨offset, fun k => ⟨fun hk => hk.unique hruler hoffset, fun hk => hk ▸ hoffset⟩⟩
    · rintro rfl
      cases hfails
      rw [herror]
      rfl
    · have herrors : errors ≠ [] := by
        rintro rfl
        exact hne (List.forall₂_nil_right_iff.1 hfails)
      obtain ⟨error, hfurthest, hfirst⟩ := Run.exists_furthest_of_ne_nil herrors
      obtain ⟨before, after, offset, hsplit, hoffset, hbefore, hafter⟩ :=
        hfirst.exists_offset hruler hlies
      rw [hfurthest] at herror
      exact ⟨before, error, after, offset, hsplit, by rw [herror]; rfl, by rw [herror]; rfl, hoffset,
        hbefore, hafter⟩

/-- The first alternative fails in the first line, the others at the start of the second one, where
    the column is smaller. The last one has got no further than the second, whose message is
    reported. -/
theorem oneOf_reports_furthest_second_line :
    let input := (Input.ofStringWith { resetColumnOnNewline := true } "ab\nc").startingAt ⟨1, 7⟩
    let ps : List (Parser Char (fun _ => Empty) Unit (List Char)) :=
      [safe (tokens ['a', 'x']), safe (tokens ['a', 'b', '\n', 'x']),
        safe (keepSecond (tokens ['a', 'b', '\n']) (fail "too late"))]
    let w : World Char Unit := ⟨input.initialState, [], .empty⟩
    ∃ v errors, errors.map ParseError.position = [⟨1, 8⟩, ⟨2, 1⟩, ⟨2, 1⟩] ∧
      ((oneOf ps).eval input.ruler (calls input.ruler (fun _ => Empty.elim) 0) 0).run w =
        (.ok (.failure false), v) ∧
      v.state.error.message = State.tokenMessage ∧
      ∃ before error after offset, errors = before ++ error :: after ∧
        v.state.error.cause = error.cause ∧ v.state.error.message = error.message ∧
        error.LiesAt input offset ∧ (∀ e ∈ before, ∀ k, e.LiesAt input k → k < offset) ∧
        ∀ e ∈ after, ∀ k, e.LiesAt input k → k ≤ offset := by
  intro input ps w
  have hrun : ((oneOf ps).eval input.ruler (calls input.ruler (fun _ => Empty.elim) 0) 0).run w =
      (.ok (.failure false), _) := rfl
  have hconfig : ({ resetColumnOnNewline := true } : Config).validate = .ok () := rfl
  obtain ⟨v, hv, -, -, hfurthest⟩ :=
    (oneOf_reports_furthest hconfig "ab\nc" ⟨1, 7⟩).2 (fun _ => Empty.elim) 0 ps 0 w _ (.start _)
      (.cons ⟨_, rfl, rfl⟩ (.cons ⟨_, rfl, rfl⟩ (.cons ⟨_, rfl, rfl⟩ .nil)))
  rw [hrun] at hv
  obtain ⟨-, rfl⟩ := Prod.mk.inj hv
  exact ⟨_, _, rfl, hrun, rfl, hfurthest (List.cons_ne_nil _ _)⟩

end Parser

end CommittedChoice
