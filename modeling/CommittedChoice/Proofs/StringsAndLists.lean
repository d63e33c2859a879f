import Mathlib.Data.List.Forall2
import CommittedChoice.Proofs.Coupling
import CommittedChoice.Proofs.Place

set_option autoImplicit false

/-! # Strings and lists of characters

A text can be parsed as a string, in which a cursor counts bytes and characters are one to four
bytes wide, or as the list of its characters, in which a cursor counts characters. The two parses
run side by side: two places are twins if they lie behind the same characters (`Place.Twins`), and
then the cursor in the string is the length in bytes of as many characters as the cursor in the
list says. Every operation on states leads from twins to twins (`State.Twins`), and so does every
parser, with the same answer, the same events and the same resolved parsers (`World.Twins`). The
main statement is `Parser.string_agrees_with_list`. -/

namespace CommittedChoice

variable {ω α : Type} {ρ : Type → Type} {text : String} {next : Char → Position → Option Position}

/-! ## Twin places -/

/-- A place of a string and a place of the list of its characters that lie behind the same
    characters. -/
structure Place.Twins (text : String) (q q' : Place Char) : Prop where
  cursor_le : q'.cursor ≤ text.length
  cursor_eq : q.cursor = (String.ofList (text.toList.take q'.cursor)).utf8ByteSize
  position_eq : q.position = q'.position
  rest_eq : q.rest = text.toList.drop q'.cursor
  rest_eq' : q'.rest = text.toList.drop q'.cursor

namespace Place.Twins

variable {q q' : Place Char}

theorem start (text : String) (position : Position) :
    Twins text (Place.start position text.toList) (Place.start position text.toList) where
  cursor_le := Nat.zero_le _
  cursor_eq := by simp [Place.start]
  position_eq := rfl
  rest_eq := rfl
  rest_eq' := rfl

/-- The places behind the next character are twins again: the cursor in the string moves by the
    width of the character, the cursor in the list by one. -/
theorem behind (h : Twins text q q') {c : Char} {cs : List Char}
    (hrest : text.toList.drop q'.cursor = c :: cs) (position : Position) :
    Twins text ⟨q.cursor + c.utf8Size, position, cs⟩ ⟨q'.cursor + 1, position, cs⟩ := by
  have hchar : text.toList[q'.cursor]? = some c := by
    rw [← List.head?_drop, hrest, List.head?_cons]
  have htake : text.toList.take (q'.cursor + 1) = text.toList.take q'.cursor ++ [c] := by
    rw [List.take_add_one, hchar, Option.toList_some]
  have hdrop : text.toList.drop (q'.cursor + 1) = cs := by
    rw [← List.tail_drop, hrest, List.tail_cons]
  have hlt : q'.cursor < text.toList.length := (List.getElem?_eq_some_iff.1 hchar).1
  refine ⟨?_, ?_, rfl, hdrop.symm, hdrop.symm⟩
  · rw [← String.length_toList]
    exact hlt
  · simp only
    rw [htake, String.ofList_append, String.utf8ByteSize_append, ← h.cursor_eq,
      ← String.singleton_eq_ofList, String.utf8ByteSize_singleton]

theorem peek_eq (h : Twins text q q') : q.peek = text.toList[q'.cursor]? := by
  rw [peek, h.rest_eq, List.head?_drop]

theorem peek_eq' (h : Twins text q q') : q'.peek = text.toList[q'.cursor]? := by
  rw [peek, h.rest_eq', List.head?_drop]

/-- The cursor in the string gives access to the character whose index is the cursor in the list. -/
theorem tokenAt_cursor (h : Twins text q q') :
    tokenAt (Ruler.ofString next).width text.toList q.cursor =
      text.toList[q'.cursor]?.map fun c => (c, c.utf8Size) := by
  rw [h.cursor_eq, ← Ruler.extent_ofString next, tokenAt_extent_take]
  rfl

theorem tokenAt_cursor' (h : Twins text q q') :
    tokenAt (Ruler.ofTokens next).width text.toList q'.cursor =
      text.toList[q'.cursor]?.map fun c => (c, 1) := by
  have hle : q'.cursor ≤ text.toList.length := String.length_toList ▸ h.cursor_le
  have hextent : (Ruler.ofTokens next).extent (text.toList.take q'.cursor) = q'.cursor := by
    rw [Ruler.extent_ofTokens, List.length_take_of_le hle]
  calc tokenAt (Ruler.ofTokens next).width text.toList q'.cursor
      = tokenAt (Ruler.ofTokens next).width text.toList
          ((Ruler.ofTokens next).extent (text.toList.take q'.cursor)) := by rw [hextent]
    _ = text.toList[q'.cursor]?.map fun c => (c, 1) := tokenAt_extent_take _ _

theorem rel_next? (h : Twins text q q') :
    Option.Rel (Twins text) (q.next? (Ruler.ofString next)) (q'.next? (Ruler.ofTokens next)) := by
  rcases hrest : text.toList.drop q'.cursor with _ | ⟨c, cs⟩
  · have hend : q.next? (Ruler.ofString next) = some q := by
      simp only [next?, h.rest_eq, hrest]
    have hend' : q'.next? (Ruler.ofTokens next) = some q' := by
      simp only [next?, h.rest_eq', hrest]
    rw [hend, hend']
    exact .some h
  · simp only [next?, h.rest_eq, h.rest_eq', hrest, h.position_eq, Ruler.ofString, Ruler.ofTokens]
    rcases next c q'.position with _ | position
    · exact .none
    · exact .some (h.behind hrest position)

end Place.Twins

/-! ## Twin states -/

/-- States at twin places, with twin bookmarks in the same order and the same error. -/
structure State.Twins (text : String) (s s' : State Char) : Prop where
  place : s.place.Twins text s'.place
  bookmarks : List.Forall₂ (Place.Twins text) s.bookmarks s'.bookmarks
  error : s.error = s'.error

namespace State.Twins

variable {s s' : State Char}

theorem initial (text : String) (position : Position) :
    Twins text (State.initial position text.toList) (State.initial position text.toList) :=
  ⟨.start text position, .nil, rfl⟩

theorem advance (h : Twins text s s') :
    Option.Rel (Twins text) (s.advance? (Ruler.ofString next))
      (s'.advance? (Ruler.ofTokens next)) := by
  have hnext : Option.Rel (Place.Twins text) (s.place.next? (Ruler.ofString next))
      (s'.place.next? (Ruler.ofTokens next)) := h.place.rel_next?
  simp only [State.advance?]
  generalize s.place.next? (Ruler.ofString next) = q at hnext
  generalize s'.place.next? (Ruler.ofTokens next) = q' at hnext
  cases hnext with
  | none => exact .none
  | some hplace => exact .some ⟨hplace, h.bookmarks, h.error⟩

theorem pushBookmark (h : Twins text s s') : Twins text s.pushBookmark s'.pushBookmark :=
  ⟨h.place, .cons h.place h.bookmarks, h.error⟩

theorem popBookmark (h : Twins text s s') : Twins text s.popBookmark s'.popBookmark := by
  obtain ⟨place, stack, error⟩ := s
  obtain ⟨place', stack', error'⟩ := s'
  refine ⟨h.place, ?_, h.error⟩
  cases h.bookmarks with
  | nil => exact .nil
  | cons _ hstack => exact hstack

theorem rewind (h : Twins text s s') : Twins text s.rewind s'.rewind := by
  obtain ⟨place, stack, error⟩ := s
  obtain ⟨place', stack', error'⟩ := s'
  -- both go back to the bookmark on top, and these are twins
  cases h.bookmarks with
  | nil => exact h
  | cons hplace hstack => exact ⟨hplace, hstack, h.error⟩

end State.Twins

/-! ## Twin parses -/

/-- Worlds in twin states, in which the same was reported and resolved. -/
structure World.Twins (text : String) (w w' : World Char ω) : Prop where
  state : w.state.Twins text w'.state
  events : w.events = w'.events
  cells : w.cells = w'.cells

/-- A string and the list of its characters. All events are compared, and both parses resolve the
    same recursive parsers. -/
def Coupling.ofText (ω : Type) (text : String) (next : Char → Position → Option Position) :
    Coupling Char ω where
  ruler := Ruler.ofString next
  ruler' := Ruler.ofTokens next
  place := Place.Twins text
  shown := fun _ => true
  sameCells := True
  rest_eq := fun h => h.rest_eq.trans h.rest_eq'.symm
  position_eq := fun h => h.position_eq
  rel_next? := fun h => h.rel_next?
  sameCells_of_shown := fun _ => trivial

theorem Coupling.joins_ofText {w w' : World Char ω} (h : w.Twins text w') :
    (ofText ω text next).Joins True w w' :=
  ⟨h.state.place, by rw [h.events], fun _ => h.cells, fun _ => h.state.error⟩

/-- Joined worlds are twins if their bookmarks are. -/
theorem Coupling.Joins.twins {agree : Prop} {w w' : World Char ω}
    (h : (ofText ω text next).Joins agree w w') (hagree : agree)
    (hbookmarks : List.Forall₂ (Place.Twins text) w.state.bookmarks w'.state.bookmarks) :
    w.Twins text w' := by
  have hevents : w.events = w'.events := by
    have hall (events : List (Event ω)) : events.filter (ofText ω text next).shown = events :=
      List.filter_eq_self.2 fun _ _ => rfl
    rw [← hall w.events, ← hall w'.events]
    exact h.events
  exact ⟨⟨h.place, hbookmarks, h.error hagree⟩, hevents, h.cells trivial⟩

/-! ## Whole parses -/

namespace Run

variable {x y : Run Char ω (Outcome α)} {w w' v v' : World Char ω}

/-- The result of a whole parse is made from the answer, the error and the position, which twins
    have in common. -/
theorem toResult_of_twins {r : Except Stop (Outcome α)} (hrun : x.run w = (r, v))
    (hrun' : y.run w' = (r, v')) (h : v.Twins text v') :
    ∃ result u u', x.toResult.run w = (result, u) ∧ y.toResult.run w' = (result, u') ∧
      u.Twins text u' := by
  obtain ⟨result, last, hresult, hresult'⟩ :=
    exists_run_toResult hrun hrun' h.state.place.position_eq h.state.error
  exact ⟨result, _, _, hresult, hresult', h.state, congrArg (last ++ ·) h.events, h.cells⟩

end Run

namespace Parser

/-- Twins are all that the two parses need to have in common. -/
theorem exists_twins_eval_calls (next : Char → Position → Option Position) (rules : Rules Char ρ ω)
    (depth : Nat) (p : Parser Char ρ ω α) (copy : Nat) {w w' : World Char ω}
    (h : w.Twins text w') :
    ∃ r v v', (p.eval (Ruler.ofString next) (calls (Ruler.ofString next) rules depth) copy).run w =
        (r, v) ∧
      (p.eval (Ruler.ofTokens next) (calls (Ruler.ofTokens next) rules depth) copy).run w' =
        (r, v') ∧ v.Twins text v' := by
  have hkeep := keepsBookmarks_eval_calls (Ruler.ofString next) rules depth p copy w
  have hkeep' := keepsBookmarks_eval_calls (Ruler.ofTokens next) rules depth p copy w'
  have hcouples : (p.eval (Ruler.ofString next) (calls (Ruler.ofString next) rules depth)
      copy).Couples (Coupling.ofText ω text next) True
      (p.eval (Ruler.ofTokens next) (calls (Ruler.ofTokens next) rules depth) copy) :=
    couples_eval_calls (Coupling.ofText ω text next) rules depth p (fun _ => rfl) True
  obtain ⟨r, v, v', hrun, hrun', hjoins⟩ := hcouples (Coupling.joins_ofText h)
  rw [hrun] at hkeep
  rw [hrun'] at hkeep'
  refine ⟨r, v, v', hrun, hrun', hjoins.twins (.inl trivial) ?_⟩
  rw [hkeep, hkeep']
  exact h.state.bookmarks

theorem transcript_eq (text : String) (next : Char → Position → Option Position)
    (start : Position) (grammar : Grammar Char ρ ω) (p : Parser Char ρ ω α) (cells : Cells) :
    (⟨text.toList, Ruler.ofString next, start⟩ : Input Char).parse grammar p cells =
      (⟨text.toList, Ruler.ofTokens next, start⟩ : Input Char).parse grammar p cells := by
  have hstart : (⟨State.initial start text.toList, [], cells⟩ : World Char ω).Twins text
      ⟨State.initial start text.toList, [], cells⟩ := ⟨.initial text start, rfl, rfl⟩
  obtain ⟨r, v, v', hrun, hrun', hend⟩ :=
    exists_twins_eval_calls next grammar.rules (grammar.depth text.toList.length) p 0 hstart
  obtain ⟨result, u, u', hresult, hresult', htwins⟩ := Run.toResult_of_twins hrun hrun' hend
  have hleft : (⟨text.toList, Ruler.ofString next, start⟩ : Input Char).parse grammar p cells =
      ⟨result, u.events.reverse, u.cells⟩ := Input.parse_of_run hresult
  have hright : (⟨text.toList, Ruler.ofTokens next, start⟩ : Input Char).parse grammar p cells =
      ⟨result, u'.events.reverse, u'.cells⟩ := Input.parse_of_run hresult'
  rw [hleft, hright, htwins.events, htwins.cells]

/-- **A string and the list of its characters are parsed alike.** The states before anything was
    read are twins. At twin places, both cursors give access to the same character, which is the one
    that is read next: the cursor in the string by its byte and the cursor in the list by its index.
    Reading leads from twins to twins or stops both parses, and setting, forgetting
    and using a bookmark leads from twins to twins. From twins, every parser gives the same answer
    and ends in twins: the cursor in the string is the length in bytes of as many characters as the
    cursor in the list says, for the place of the state and for each bookmark, and the positions,
    the errors, the events and the resolved parsers are the same. So a whole parse leaves the same
    transcript. -/
theorem string_agrees_with_list (text : String) (next : Char → Position → Option Position)
    (start : Position) (grammar : Grammar Char ρ ω) (p : Parser Char ρ ω α) :
    (State.initial start text.toList).Twins text (State.initial start text.toList) ∧
    (∀ q q' : Place Char, q.Twins text q' →
      q.peek = text.toList[q'.cursor]? ∧ q'.peek = text.toList[q'.cursor]? ∧
      tokenAt (Ruler.ofString next).width text.toList q.cursor =
        text.toList[q'.cursor]?.map (fun c => (c, c.utf8Size)) ∧
      tokenAt (Ruler.ofTokens next).width text.toList q'.cursor =
        text.toList[q'.cursor]?.map (fun c => (c, 1))) ∧
    (∀ s s' : State Char, s.Twins text s' →
      Option.Rel (State.Twins text) (s.advance? (Ruler.ofString next))
        (s'.advance? (Ruler.ofTokens next)) ∧
      s.pushBookmark.Twins text s'.pushBookmark ∧ s.popBookmark.Twins text s'.popBookmark ∧
      s.rewind.Twins text s'.rewind) ∧
    (∀ (depth copy : Nat) (w w' : World Char ω), w.Twins text w' →
      ∃ r v v',
        (p.eval (Ruler.ofString next) (calls (Ruler.ofString next) grammar.rules depth) copy).run w =
          (r, v) ∧
        (p.eval (Ruler.ofTokens next) (calls (Ruler.ofTokens next) grammar.rules depth) copy).run
          w' = (r, v') ∧ v.Twins text v') ∧
    ∀ cells : Cells,
      (⟨text.toList, Ruler.ofString next, start⟩ : Input Char).parse grammar p cells =
        (⟨text.toList, Ruler.ofTokens next, start⟩ : Input Char).parse grammar p cells := by
  refine ⟨.initial text start, fun q q' h => ?_, fun s s' h => ?_, fun depth copy w w' h => ?_,
    fun cells => ?_⟩
  · exact ⟨h.peek_eq, h.peek_eq', h.tokenAt_cursor, h.tokenAt_cursor'⟩
  · exact ⟨h.advance, h.pushBookmark, h.popBookmark, h.rewind⟩
  · exact exists_twins_eval_calls next grammar.rules depth p copy h
  · exact transcript_eq text next start grammar p cells

/-- The first literal fails behind `é` and goes back, and the second one reads characters of one,
    two and four bytes: the parses end at the cursors 7 and 3. -/
theorem string_agrees_with_list_wide_characters :
    let text := String.ofList ['a', 'é', '😀']
    let next := TextLayout.next {}
    let rules : Rules Char (fun _ => Empty) Unit := fun _ => Empty.elim
    let p : Parser Char (fun _ => Empty) Unit (List Char) :=
      orElse (safe (tokens ['a', 'é', 'x'])) (tokens ['a', 'é', '😀'])
    let w : World Char Unit := ⟨State.initial Position.first ['a', 'é', '😀'], [], .empty⟩
    w.Twins text w ∧ ∃ v v',
      (p.eval (Ruler.ofString next) (calls (Ruler.ofString next) rules 0) 0).run w =
        (.ok (.success ['a', 'é', '😀'] true), v) ∧
      (p.eval (Ruler.ofTokens next) (calls (Ruler.ofTokens next) rules 0) 0).run w =
        (.ok (.success ['a', 'é', '😀'] true), v') ∧
      v.Twins text v' ∧ v.state.cursor = 7 ∧ v'.state.cursor = 3 := by
  intro text next rules p w
  have htext : text.toList = ['a', 'é', '😀'] := String.toList_ofList
  have hstart : w.Twins text w := by
    refine ⟨?_, rfl, rfl⟩
    show (State.initial Position.first ['a', 'é', '😀']).Twins text
      (State.initial Position.first ['a', 'é', '😀'])
    rw [← htext]
    exact .initial text Position.first
  have hstring : (p.eval (Ruler.ofString next) (calls (Ruler.ofString next) rules 0) 0).run w =
      (.ok (.success ['a', 'é', '😀'] true), _) := rfl
  have hlist : (p.eval (Ruler.ofTokens next) (calls (Ruler.ofTokens next) rules 0) 0).run w =
      (.ok (.success ['a', 'é', '😀'] true), _) := rfl
  obtain ⟨r, v, v', hrun, hrun', htwins⟩ :=
    (string_agrees_with_list text next Position.first ⟨rules, 0⟩ p).2.2.2.1 0 0 w w hstart
  rw [hstring] at hrun
  rw [hlist] at hrun'
  obtain ⟨rfl, rfl⟩ := Prod.mk.inj hrun
  obtain ⟨-, rfl⟩ := Prod.mk.inj hrun'
  exact ⟨hstart, _, _, hstring, hlist, htwins, rfl, rfl⟩

end Parser

end CommittedChoice
