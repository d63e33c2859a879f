import CommittedChoice.Proofs.Coupling
import CommittedChoice.Proofs.Place

set_option autoImplicit false

/-! # What a parse does not depend on

A state carries two things besides its place: the error that was written last, and the bookmarks of
the speculations around it. Both are shared by all parsers of a run and both are read: a choice
compares the errors of its alternatives, a sequence passes on the error of its component, and a
speculation goes back to the bookmark on top. Still a parser depends on neither. It reads an error
only after a part of it has failed and written one, and it goes back only to bookmarks of its own.

Two parses that start at the same place are coupled by equality of places (`Coupling.byPlace`), and
nothing is assumed about their errors, bookmarks, events and resolved parsers. The main statement is
`Parser.exists_run_of_same_place`. -/

namespace CommittedChoice

variable {τ ω α : Type}

/-- Two parses of the same input that are at the same place. Nothing else need be the same. -/
def Coupling.byPlace (ω : Type) (ruler : Ruler τ) : Coupling τ ω where
  ruler := ruler
  ruler' := ruler
  place := Eq
  shown := fun _ => false
  sameCells := False
  rest_eq := by
    rintro q _ rfl
    rfl
  position_eq := by
    rintro q _ rfl
    rfl
  rel_next? := by
    rintro q _ rfl
    cases q.next? ruler with
    | none => exact .none
    | some _ => exact .some rfl
  sameCells_of_shown := nofun

theorem Coupling.joins_byPlace {ruler : Ruler τ} {w w' : World τ ω}
    (h : w.state.place = w'.state.place) : (byPlace ω ruler).Joins False w w' := by
  refine ⟨h, ?_, False.elim, False.elim⟩
  have hnone (events : List (Event ω)) : events.filter (byPlace ω ruler).shown = [] :=
    List.filter_eq_nil_iff.2 fun _ _ => Bool.false_ne_true
  rw [hnone, hnone]

/-- Two places of the same tokens with the same cursor and the same position are the same place. -/
theorem Place.LiesIn.eq_of_cursor_eq {tokens : List τ} {ruler : Ruler τ} {start start' : Position}
    {q q' : Place τ} (h : q.LiesIn ⟨tokens, ruler, start⟩) (h' : q'.LiesIn ⟨tokens, ruler, start'⟩)
    (hcursor : q.cursor = q'.cursor) (hposition : q.position = q'.position) : q = q' := by
  have hrest := h.rest_eq_of_cursor_eq h' hcursor
  obtain ⟨cursor, position, rest⟩ := q
  obtain ⟨cursor', position', rest'⟩ := q'
  simp only at hcursor hposition hrest
  rw [hcursor, hposition, hrest]

namespace Parser

variable {ρ : Type → Type}

/-- **A parse depends on its place alone.** Let two states over the same tokens have the same cursor
    and the same position. Whatever errors they hold, whatever bookmarks are on their stacks, and
    whatever was reported and resolved before, a parser gives the same answer from both and ends at
    the same cursor and position. If the answer is a failure, the errors are the same in the end, so
    that nothing of the errors before is left in them. -/
theorem exists_run_of_same_place {tokens : List τ} {ruler : Ruler τ} {start start' : Position}
    (rules : Rules τ ρ ω) (depth : Nat) (p : Parser τ ρ ω α) (copy : Nat) {w w' : World τ ω}
    (hplace : w.state.place.LiesIn ⟨tokens, ruler, start⟩)
    (hplace' : w'.state.place.LiesIn ⟨tokens, ruler, start'⟩)
    (hcursor : w.state.cursor = w'.state.cursor)
    (hposition : w.state.position = w'.state.position) :
    ∃ r v v', (p.eval ruler (calls ruler rules depth) copy).run w = (r, v) ∧
      (p.eval ruler (calls ruler rules depth) copy).run w' = (r, v') ∧
      v.state.cursor = v'.state.cursor ∧ v.state.position = v'.state.position ∧
      ∀ consumed, r = .ok (.failure consumed) → v.state.error = v'.state.error := by
  have hsame : w.state.place = w'.state.place := hplace.eq_of_cursor_eq hplace' hcursor hposition
  have hcouples : (p.eval ruler (calls ruler rules depth) copy).Couples (Coupling.byPlace ω ruler)
      False (p.eval ruler (calls ruler rules depth) copy) :=
    couples_eval_calls (Coupling.byPlace ω ruler) rules depth p (fun _ => rfl) False
  obtain ⟨r, v, v', hrun, hrun', hjoins⟩ := hcouples (Coupling.joins_byPlace hsame)
  have hend : v.state.place = v'.state.place := hjoins.place
  refine ⟨r, v, v', hrun, hrun', congrArg Place.cursor hend, congrArg Place.position hend, ?_⟩
  rintro consumed rfl
  exact hjoins.error (.inr ⟨consumed, rfl⟩)

/-- A choice reads the errors of its alternatives, of which the first one goes back to its bookmark.
    It fails with one and the same error, whether the state before is a fresh one or one with a
    bookmark elsewhere and an error from further on. -/
theorem exists_run_of_same_place_choice :
    let p : Parser Char (fun _ => Empty) Unit (List Char) :=
      orElse (safe (tokens ['a', 'b'])) (map (fun c => [c]) (token 'c'))
    let ruler := Ruler.ofString (TextLayout.next {})
    let stale : ParseError Char := ⟨⟨some 'z', ⟨7, 7⟩, false⟩, [], "stale"⟩
    let w : World Char Unit := ⟨State.initial Position.first ['a', 'd'], [], .empty⟩
    let w' : World Char Unit :=
      ⟨⟨Place.start Position.first ['a', 'd'], [⟨2, ⟨1, 3⟩, []⟩], stale⟩, [], .empty⟩
    ∃ v v', (p.eval ruler (calls ruler (fun _ => Empty.elim) 0) 0).run w =
        (.ok (.failure false), v) ∧
      (p.eval ruler (calls ruler (fun _ => Empty.elim) 0) 0).run w' =
        (.ok (.failure false), v') ∧
      v.state.error = v'.state.error ∧ v.state.error.position = ⟨1, 2⟩ := by
  intro p ruler stale w w'
  have hrun : (p.eval ruler (calls ruler (fun _ => Empty.elim) 0) 0).run w =
      (.ok (.failure false), _) := rfl
  have hplace : w.state.place.LiesIn ⟨['a', 'd'], ruler, Position.first⟩ := .start _
  have hplace' : w'.state.place.LiesIn ⟨['a', 'd'], ruler, Position.first⟩ := .start _
  obtain ⟨r, v, v', hfirst, hsecond, -, -, herror⟩ :=
    exists_run_of_same_place (fun _ => Empty.elim) 0 p 0 hplace hplace' rfl rfl
  rw [hrun] at hfirst
  obtain ⟨rfl, rfl⟩ := Prod.mk.inj hfirst
  exact ⟨_, v', hrun, hsecond, herror false rfl, rfl⟩

end Parser

end CommittedChoice
