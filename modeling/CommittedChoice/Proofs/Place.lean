import CommittedChoice.Input

set_option autoImplicit false

/-! # Moving through an input

A parse moves over whole tokens. `Place.Passes ruler q ts q'` says that `q'` lies behind the run `ts`
of tokens that follows `q`: the rest is shorter by `ts`, the cursor is larger by the widths of `ts`,
and the position is what the ruler makes of `ts`. All three change together, so none can drift away
from the others, and passages compose (`Place.Passes.trans`).

`Place.LiesIn input q` is the same relation measured from the start of an input. At such a place the
random access by cursor finds the next token (`Place.LiesIn.tokenAt_eq`). -/

namespace CommittedChoice

variable {τ : Type} {ruler : Ruler τ}

/-! ## Measuring runs of tokens -/

namespace Ruler

@[simp] theorem extent_nil : ruler.extent [] = 0 := rfl

@[simp] theorem extent_cons (t : τ) (ts : List τ) :
    ruler.extent (t :: ts) = ruler.width t + ruler.extent ts := rfl

@[simp] theorem extent_append (ts us : List τ) :
    ruler.extent (ts ++ us) = ruler.extent ts + ruler.extent us := by
  induction ts with
  | nil => simp
  | cons t ts ih => simp only [List.cons_append, extent_cons, ih, Nat.add_assoc]

theorem extent_pos_iff {ts : List τ} : 0 < ruler.extent ts ↔ ts ≠ [] := by
  cases ts with
  | nil => simp
  | cons t ts =>
      have hwidth := ruler.width_pos t
      simp only [extent_cons, ne_eq, reduceCtorEq, not_false_eq_true, iff_true]
      omega

theorem extent_eq_zero_iff {ts : List τ} : ruler.extent ts = 0 ↔ ts = [] := by
  constructor
  · intro hzero
    by_cases hts : ts = []
    · exact hts
    · have hpos : 0 < ruler.extent ts := extent_pos_iff.2 hts
      omega
  · rintro rfl
    rfl

/-- Two ways to cut a list of tokens that measure the same are the same cut. -/
theorem append_inj_of_extent_eq {past rest past' rest' : List τ} (h : past ++ rest = past' ++ rest')
    (hextent : ruler.extent past = ruler.extent past') : past = past' ∧ rest = rest' := by
  -- one of the cuts lies behind the other, and what is between them measures nothing
  rcases List.append_eq_append_iff.1 h with ⟨ts, rfl, rfl⟩ | ⟨ts, rfl, rfl⟩
  · rw [extent_append] at hextent
    have hts : ts = [] := extent_eq_zero_iff.1 (show ruler.extent ts = 0 by omega)
    simp [hts]
  · rw [extent_append] at hextent
    have hts : ts = [] := extent_eq_zero_iff.1 (show ruler.extent ts = 0 by omega)
    simp [hts]

/-- A list is measured by its length. -/
theorem extent_ofTokens (next : τ → Position → Option Position) (ts : List τ) :
    (ofTokens next).extent ts = ts.length := by
  induction ts with
  | nil => rfl
  | cons t ts ih =>
      rw [extent_cons, ih, List.length_cons, Nat.add_comm]
      rfl

/-- A string is measured by the length of its UTF-8 encoding. -/
theorem extent_ofString (next : Char → Position → Option Position) (cs : List Char) :
    (ofString next).extent cs = (String.ofList cs).utf8ByteSize := by
  induction cs with
  | nil => simp
  | cons c cs ih =>
      rw [extent_cons, ih, String.ofList_cons, String.utf8ByteSize_append,
        String.utf8ByteSize_singleton]
      rfl

@[simp] theorem positionAfter_nil (p : Position) : ruler.positionAfter p [] = some p := rfl

theorem positionAfter_cons (p : Position) (t : τ) (ts : List τ) :
    ruler.positionAfter p (t :: ts) = (ruler.next t p).bind (ruler.positionAfter · ts) := rfl

theorem positionAfter_append (p : Position) (ts us : List τ) :
    ruler.positionAfter p (ts ++ us) =
      (ruler.positionAfter p ts).bind (ruler.positionAfter · us) := by
  simp only [positionAfter, List.foldlM_append]
  rfl

end Ruler

/-! ## Random access -/

/-- The token behind a run of tokens is found at the cursor that the run measures. -/
theorem tokenAt_extent (past rest : List τ) :
    tokenAt ruler.width (past ++ rest) (ruler.extent past) =
      rest.head?.map fun t => (t, ruler.width t) := by
  induction past with
  | nil => cases rest <;> rfl
  | cons t past ih =>
      have hwidth := ruler.width_pos t
      -- the cursor lies behind the first token, which is wider than nothing
      simp only [List.cons_append, Ruler.extent_cons, tokenAt]
      rw [if_neg (by omega), if_neg (by omega), Nat.add_sub_cancel_left, ih]

theorem tokenAt_extent_take (ts : List τ) (k : Nat) :
    tokenAt ruler.width ts (ruler.extent (ts.take k)) =
      ts[k]?.map fun t => (t, ruler.width t) := by
  calc tokenAt ruler.width ts (ruler.extent (ts.take k))
      = tokenAt ruler.width (ts.take k ++ ts.drop k) (ruler.extent (ts.take k)) := by
        rw [List.take_append_drop]
    _ = (ts.drop k).head?.map fun t => (t, ruler.width t) := tokenAt_extent _ _
    _ = ts[k]?.map fun t => (t, ruler.width t) := by rw [List.head?_drop]

/-! ## Passages -/

/-- `q'` lies behind the run `ts` of tokens that follows `q`. -/
structure Place.Passes (ruler : Ruler τ) (q : Place τ) (ts : List τ) (q' : Place τ) : Prop where
  rest : q.rest = ts ++ q'.rest
  cursor : q'.cursor = q.cursor + ruler.extent ts
  position : ruler.positionAfter q.position ts = some q'.position

namespace Place

variable {q q' q'' : Place τ} {ts us : List τ} {t : τ}

namespace Passes

theorem refl (q : Place τ) : Passes ruler q [] q := ⟨rfl, rfl, rfl⟩

theorem trans (h : Passes ruler q ts q') (h' : Passes ruler q' us q'') :
    Passes ruler q (ts ++ us) q'' where
  rest := by rw [h.rest, h'.rest, List.append_assoc]
  cursor := by rw [h'.cursor, h.cursor, Ruler.extent_append, Nat.add_assoc]
  position := by
    rw [Ruler.positionAfter_append, h.position]
    exact h'.position

theorem eq_of_nil (h : Passes ruler q [] q') : q' = q := by
  obtain ⟨hrest, hcursor, hposition⟩ := h
  obtain ⟨cursor, position, rest⟩ := q
  obtain ⟨cursor', position', rest'⟩ := q'
  simp only [List.nil_append, Ruler.extent_nil, Nat.add_zero, Ruler.positionAfter_nil,
    Option.some.injEq] at hrest hcursor hposition
  rw [hrest, hcursor, hposition]

theorem length_rest (h : Passes ruler q ts q') :
    q.rest.length = ts.length + q'.rest.length := by
  rw [h.rest, List.length_append]

end Passes

/-- A step over a token, where the position can follow. -/
theorem passes_of_next? (hrest : q.rest = t :: us) (h : q.next? ruler = some q') :
    Passes ruler q [t] q' := by
  simp only [next?, hrest, Option.map_eq_some_iff] at h
  obtain ⟨p, hp, rfl⟩ := h
  exact ⟨hrest, by simp, by simp [Ruler.positionAfter_cons, hp]⟩

/-- A step passes a token, or nothing at the end of the input. -/
theorem exists_passes_of_next? (h : q.next? ruler = some q') : ∃ ts, Passes ruler q ts q' := by
  rcases hrest : q.rest with _ | ⟨t, rest⟩
  · simp only [next?, hrest, Option.some.injEq] at h
    exact ⟨[], h ▸ .refl q⟩
  · exact ⟨[t], passes_of_next? hrest h⟩

/-- A step that cannot be made is the fault of the position. -/
theorem exists_of_next?_eq_none (h : q.next? ruler = none) :
    ∃ t rest, q.rest = t :: rest ∧ ruler.next t q.position = none := by
  rcases hrest : q.rest with _ | ⟨t, rest⟩
  · simp [next?, hrest] at h
  · simp only [next?, hrest, Option.map_eq_none_iff] at h
    exact ⟨t, rest, rfl, h⟩

/-- A passage that cannot go on has no position behind the next token. -/
theorem Passes.exists_positionAfter_eq_none (h : Passes ruler q ts q')
    (hstuck : q'.next? ruler = none) :
    ∃ us, us <+: q.rest ∧ ruler.positionAfter q.position us = none := by
  obtain ⟨t, rest, hrest, hnext⟩ := exists_of_next?_eq_none hstuck
  refine ⟨ts ++ [t], ⟨rest, ?_⟩, ?_⟩
  · rw [h.rest, hrest, List.append_assoc]
    rfl
  · rw [Ruler.positionAfter_append, h.position, Option.bind_some, Ruler.positionAfter_cons, hnext]
    rfl

/-! ## Places of an input -/

/-- The place lies between two tokens of the input, and its cursor and its position are those of the
    tokens before it. -/
def LiesIn (input : Input τ) (q : Place τ) : Prop :=
  ∃ past, Passes input.ruler (Place.start input.start input.tokens) past q

namespace LiesIn

variable {input : Input τ}

theorem start (input : Input τ) : LiesIn input (Place.start input.start input.tokens) :=
  ⟨[], .refl _⟩

theorem passes (h : LiesIn input q) (hq : Passes input.ruler q ts q') : LiesIn input q' := by
  obtain ⟨past, hpast⟩ := h
  exact ⟨past ++ ts, hpast.trans hq⟩

/-- At a place of the input, the cursor gives access to the next token. -/
theorem tokenAt_eq (h : LiesIn input q) :
    tokenAt input.ruler.width input.tokens q.cursor =
      q.peek.map fun t => (t, input.ruler.width t) := by
  obtain ⟨past, hrest, hcursor, -⟩ := h
  have htokens : input.tokens = past ++ q.rest := hrest
  have hextent : q.cursor = input.ruler.extent past := by
    rw [hcursor]
    exact Nat.zero_add _
  rw [htokens, hextent, tokenAt_extent]
  rfl

/-- Wherever two parses of the same tokens started, a cursor stands for one and the same rest. -/
theorem rest_eq_of_cursor_eq {tokens : List τ} {start start' : Position}
    (h : LiesIn ⟨tokens, ruler, start⟩ q) (h' : LiesIn ⟨tokens, ruler, start'⟩ q')
    (hcursor : q.cursor = q'.cursor) : q.rest = q'.rest := by
  obtain ⟨past, hrest, hextent, -⟩ := h
  obtain ⟨past', hrest', hextent', -⟩ := h'
  have htokens : past ++ q.rest = past' ++ q'.rest := hrest.symm.trans hrest'
  have hsame : ruler.extent past = ruler.extent past' := by
    simp only [Place.start] at hextent hextent'
    omega
  exact (Ruler.append_inj_of_extent_eq htokens hsame).2

/-- In a string, the cursor is the length in bytes of the text before the place. -/
theorem exists_eq_append {text : String} {next : Char → Position → Option Position}
    {start : Position} {q : Place Char}
    (h : LiesIn ⟨text.toList, Ruler.ofString next, start⟩ q) :
    ∃ past rest : String, text = past ++ rest ∧ q.rest = rest.toList ∧
      q.cursor = past.utf8ByteSize := by
  obtain ⟨past, hrest, hcursor, -⟩ := h
  have htext : text.toList = past ++ q.rest := hrest
  refine ⟨String.ofList past, String.ofList q.rest, ?_, String.toList_ofList.symm, ?_⟩
  · rw [← String.ofList_append, ← htext, String.ofList_toList]
  · rw [hcursor, Ruler.extent_ofString]
    exact Nat.zero_add _

/-- In a list, the cursor is the index of the next token. -/
theorem drop_cursor {tokens : List τ} {next : τ → Position → Option Position}
    {start : Position} (h : LiesIn ⟨tokens, Ruler.ofTokens next, start⟩ q) :
    q.cursor ≤ tokens.length ∧ q.rest = tokens.drop q.cursor := by
  obtain ⟨past, hrest, hcursor, -⟩ := h
  have htokens : tokens = past ++ q.rest := hrest
  have hlength : q.cursor = past.length := by
    rw [hcursor, Ruler.extent_ofTokens]
    exact Nat.zero_add _
  rw [htokens, hlength, List.length_append, List.drop_left]
  exact ⟨Nat.le_add_right _ _, rfl⟩

end LiesIn

end Place

end CommittedChoice
