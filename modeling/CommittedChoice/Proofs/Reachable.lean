import CommittedChoice.Proofs.Consumption

set_option autoImplicit false

/-! # States of a parse

A state is reached from the start of an input by reading, setting and using bookmarks, recording
failures and running parsers, in any order and whether or not the order makes sense
(`State.Reachable`). Cursor, position and rest are moved by reading and put back by rewinding, and
they stay together all the while: the place of a reachable state lies in the input, and so does every
bookmark (`State.LiesIn`). What one operation preserves is stated for each of them, and
`State.Reachable.liesIn` collects what a whole run preserves. -/

namespace CommittedChoice

variable {τ : Type}

namespace State

/-! ## Reaching a state -/

/-- The states that operations lead to from the start of an input. A parser of any grammar may run,
    to whatever end. -/
inductive Reachable (input : Input τ) : State τ → Prop where
  | initial : Reachable input input.initialState
  | advance {s s' : State τ} (hs : Reachable input s) (h : s.advance? input.ruler = some s') :
      Reachable input s'
  | pushBookmark {s : State τ} (hs : Reachable input s) : Reachable input s.pushBookmark
  | popBookmark {s : State τ} (hs : Reachable input s) : Reachable input s.popBookmark
  | rewind {s : State τ} (hs : Reachable input s) : Reachable input s.rewind
  | fail {s : State τ} (hs : Reachable input s) (expected : List (Expected τ))
      (unexpected : Option τ) (message : String) (atEnd : Bool) :
      Reachable input (s.fail expected unexpected message atEnd)
  | failAtEnd {s : State τ} (hs : Reachable input s) (expected : List (Expected τ)) :
      Reachable input (s.failAtEnd expected)
  | failAtToken {s : State τ} (hs : Reachable input s) (expected : List (Expected τ)) (t : τ) :
      Reachable input (s.failAtToken expected t)
  | forward {s : State τ} (hs : Reachable input s) (expected : List (Expected τ)) :
      Reachable input (s.forward expected)
  | setError {s : State τ} (hs : Reachable input s) (error : ParseError τ) :
      Reachable input { s with error }
  | parse {ρ : Type → Type} {ω α : Type} {s : State τ} (hs : Reachable input s)
      (rules : Parser.Rules τ ρ ω) (depth : Nat) (p : Parser τ ρ ω α) (copy : Nat)
      (events : List (Event ω)) (cells : Cells) :
      Reachable input
        ((p.eval input.ruler (Parser.calls input.ruler rules depth) copy).run
          ⟨s, events, cells⟩).2.state

/-! ## The invariant -/

/-- The place of the state and all its bookmarks lie in the input. -/
structure LiesIn (input : Input τ) (s : State τ) : Prop where
  place : s.place.LiesIn input
  bookmarks : ∀ q ∈ s.bookmarks, q.LiesIn input

namespace LiesIn

variable {input : Input τ} {s s' : State τ}

theorem mem_places (hs : s.LiesIn input) {q : Place τ} (hq : q ∈ s.place :: s.bookmarks) :
    q.LiesIn input := by
  rcases List.mem_cons.1 hq with rfl | hq
  · exact hs.place
  · exact hs.bookmarks q hq

theorem initial (input : Input τ) : input.initialState.LiesIn input :=
  ⟨.start input, nofun⟩

/-- The invariant does not look at the error. -/
theorem congr (hs : s.LiesIn input) (hplace : s'.place = s.place)
    (hbookmarks : s'.bookmarks = s.bookmarks) : s'.LiesIn input :=
  ⟨hplace ▸ hs.place, hbookmarks ▸ hs.bookmarks⟩

theorem advance (hs : s.LiesIn input) (h : s.advance? input.ruler = some s') :
    s'.LiesIn input := by
  simp only [State.advance?, Option.map_eq_some_iff] at h
  obtain ⟨q, hnext, rfl⟩ := h
  refine ⟨?_, hs.bookmarks⟩
  rcases hrest : s.place.rest with _ | ⟨t, rest⟩
  · -- at the end of the input nothing is read
    have hq : q = s.place := by
      simp only [Place.next?, hrest, Option.some.injEq] at hnext
      exact hnext.symm
    exact hq ▸ hs.place
  · exact hs.place.passes (Place.passes_of_next? hrest hnext)

theorem pushBookmark (hs : s.LiesIn input) : s.pushBookmark.LiesIn input :=
  ⟨hs.place, fun _ hq => hs.mem_places hq⟩

theorem popBookmark (hs : s.LiesIn input) : s.popBookmark.LiesIn input :=
  ⟨hs.place, fun q hq => hs.bookmarks q (List.mem_of_mem_tail hq)⟩

theorem rewind (hs : s.LiesIn input) : s.rewind.LiesIn input := by
  rcases hstack : s.bookmarks with _ | ⟨q, bookmarks⟩
  · -- without a bookmark there is nothing to go back to
    have hrewind : s.rewind = s := by simp only [State.rewind, hstack]
    rw [hrewind]
    exact hs
  · rw [State.rewind_of_cons hstack]
    refine ⟨hs.bookmarks q (by simp [hstack]), fun q' hq' => hs.bookmarks q' ?_⟩
    rw [hstack]
    exact List.mem_cons_of_mem q hq'

/-- A parser passes a run of tokens and keeps the bookmarks, whatever its end. -/
theorem parse {ρ : Type → Type} {ω α : Type} (hs : s.LiesIn input) (rules : Parser.Rules τ ρ ω)
    (depth : Nat) (p : Parser τ ρ ω α) (copy : Nat) (events : List (Event ω)) (cells : Cells) :
    ((p.eval input.ruler (Parser.calls input.ruler rules depth) copy).run
      ⟨s, events, cells⟩).2.state.LiesIn input := by
  have hkeep := Parser.keepsBookmarks_eval_calls input.ruler rules depth p copy ⟨s, events, cells⟩
  rcases hrun : (p.eval input.ruler (Parser.calls input.ruler rules depth) copy).run
    ⟨s, events, cells⟩ with ⟨r, w'⟩
  rw [hrun] at hkeep
  obtain ⟨ts, hpass, -, -⟩ := Parser.moves_eval_calls input.ruler rules depth p copy hrun
  refine ⟨hs.place.passes hpass, ?_⟩
  rw [hkeep]
  exact hs.bookmarks

end LiesIn

theorem Reachable.liesIn {input : Input τ} {s : State τ} (hs : Reachable input s) :
    s.LiesIn input := by
  induction hs with
  | initial => exact .initial input
  | advance _ h ih => exact ih.advance h
  | pushBookmark _ ih => exact ih.pushBookmark
  | popBookmark _ ih => exact ih.popBookmark
  | rewind _ ih => exact ih.rewind
  | fail _ _ _ _ _ ih => exact ih.congr rfl rfl
  | failAtEnd _ _ ih => exact ih.congr rfl rfl
  | failAtToken _ _ _ ih => exact ih.congr rfl rfl
  | forward _ _ ih => exact ih.congr rfl rfl
  | setError _ _ ih => exact ih.congr rfl rfl
  | parse _ rules depth p copy events cells ih => exact ih.parse rules depth p copy events cells

/-- **The representation of a reachable state.** For the place of the state and for each bookmark, the
    input splits into the tokens before it and its rest, its cursor measures the tokens before it,
    and its position is their fold from the start. The token at the cursor is the next token. In a
    string the cursor counts the bytes of the text before it, in a list the tokens. -/
theorem Reachable.representation :
    (∀ {τ : Type} {input : Input τ} {s : State τ}, Reachable input s →
      (∀ q ∈ s.place :: s.bookmarks, ∃ past, input.tokens = past ++ q.rest ∧
        q.cursor = input.ruler.extent past ∧
        input.ruler.positionAfter input.start past = some q.position) ∧
      tokenAt input.ruler.width input.tokens s.cursor =
        s.peek.map fun t => (t, input.ruler.width t)) ∧
    (∀ {text : String} {next : Char → Position → Option Position} {start : Position}
        {s : State Char}, Reachable ⟨text.toList, Ruler.ofString next, start⟩ s →
      ∀ q ∈ s.place :: s.bookmarks, ∃ past rest : String, text = past ++ rest ∧
        q.rest = rest.toList ∧ q.cursor = past.utf8ByteSize) ∧
    (∀ {τ : Type} {tokens : List τ} {next : τ → Position → Option Position} {start : Position}
        {s : State τ}, Reachable ⟨tokens, Ruler.ofTokens next, start⟩ s →
      ∀ q ∈ s.place :: s.bookmarks, q.cursor ≤ tokens.length ∧
        q.rest = tokens.drop q.cursor) := by
  refine ⟨fun hs => ⟨fun q hq => ?_, hs.liesIn.place.tokenAt_eq⟩, fun hs q hq => ?_,
    fun hs q hq => ?_⟩
  · obtain ⟨past, hrest, hcursor, hposition⟩ := hs.liesIn.mem_places hq
    exact ⟨past, hrest, hcursor.trans (Nat.zero_add _), hposition⟩
  · exact (hs.liesIn.mem_places hq).exists_eq_append
  · exact (hs.liesIn.mem_places hq).drop_cursor

/-- A literal that fails behind `é` leaves the state there, with a bookmark before `é`. -/
theorem Reachable.representation_partial_match :
    let input : Input Char := ⟨['a', 'é', '\n'], Ruler.ofString (TextLayout.next {}), .first⟩
    ∃ s, Reachable input s ∧ s.depth = 1 ∧ s.cursor = 3 ∧
      tokenAt input.ruler.width input.tokens s.cursor = some ('\n', 1) ∧
      ∀ q ∈ s.place :: s.bookmarks, ∃ past, input.tokens = past ++ q.rest ∧
        q.cursor = input.ruler.extent past ∧
        input.ruler.positionAfter input.start past = some q.position := by
  intro input
  have hread : ∃ s, input.initialState.advance? input.ruler = some s ∧
      s = ⟨⟨1, ⟨1, 2⟩, ['é', '\n']⟩, [], .unknown⟩ := ⟨_, rfl, rfl⟩
  obtain ⟨s, hs, rfl⟩ := hread
  let p : Parser Char (fun _ => Empty) Unit (List Char) := .tokens ['é', 'b']
  have hreach := (Reachable.initial.advance hs).pushBookmark.parse (fun _ => Empty.elim) 0 p 0 []
    Cells.empty
  obtain ⟨hplaces, htoken⟩ := Reachable.representation.1 hreach
  exact ⟨_, hreach, rfl, rfl, htoken, hplaces⟩

end State

end CommittedChoice
