import CommittedChoice.Proofs.Reachable

set_option autoImplicit false

/-! # Positions along an input

A position is worked out anew each time a region of the input is read again, so how often that
happens might matter for its range. It does not: the position of a place is the fold over the tokens
before it, whatever way led there, and a parse overflows only where that fold has no result. How far
the fold can get is bounded by the number of tokens, the width of a tab and the first column
(`TextLayout.exists_positionAfter`). The main statement is `Input.overflow_only_beyond_fold`.

If tabs have a width, every character leads to a larger position. Lines are compared before columns,
so this holds although a newline may lead to a smaller column. Hence positions are ordered like the
places that they belong to (`Place.LiesIn.position_lt_iff`). -/

namespace CommittedChoice

variable {τ : Type}

/-! ## The order -/

namespace Position

theorem lt_irrefl (p : Position) : ¬ p < p := by
  simp only [lt_iff]
  omega

theorem lt_trans {p q r : Position} (h : p < q) (h' : q < r) : p < r := by
  simp only [lt_iff] at *
  omega

theorem lt_of_not_lt_of_lt {p q r : Position} (h : ¬ q < p) (h' : q < r) : p < r := by
  simp only [lt_iff] at *
  omega

end Position

/-! ## What one character does -/

namespace TextLayout

variable {layout : TextLayout} {c : Char} {p q : Position}

/-- A character leads to the next line, in the same column or the first one, or further right in the
    same line. -/
theorem next_cases (h : layout.next c p = some q) :
    q.line = p.line + 1 ∧ (q.column = p.column ∨ q.column = layout.firstColumn) ∨
      q.line = p.line ∧ (q.column = p.column + layout.tabWidth ∨ q.column = p.column + 1) := by
  unfold next at h
  split at h
  · split at h
    · obtain ⟨r, hr, rfl⟩ := Option.map_eq_some_iff.1 h
      obtain ⟨rfl, -⟩ := Position.nextLine_eq_some_iff.1 hr
      simp
    · obtain ⟨rfl, -⟩ := Position.nextLine_eq_some_iff.1 h
      simp
  · split at h
    · obtain ⟨rfl, -⟩ := Position.nextColumn_eq_some_iff.1 h
      simp
    · obtain ⟨rfl, -⟩ := Position.nextColumn_eq_some_iff.1 h
      simp

theorem exists_next (hline : p.line + 1 ≤ Position.maxCoordinate)
    (hcolumn : p.column + max 1 layout.tabWidth ≤ Position.maxCoordinate) :
    ∃ q, layout.next c p = some q := by
  have hdown : p.nextLine 1 = some ⟨p.line + 1, p.column⟩ :=
    Position.nextLine_eq_some_iff.2 ⟨rfl, hline⟩
  have hright {n : Nat} (hn : n ≤ max 1 layout.tabWidth) :
      p.nextColumn n = some ⟨p.line, p.column + n⟩ :=
    Position.nextColumn_eq_some_iff.2 ⟨rfl, by omega⟩
  unfold next
  split
  · split
    · exact ⟨_, by rw [hdown]; rfl⟩
    · exact ⟨_, hdown⟩
  · split
    · exact ⟨_, hright (Nat.le_max_right 1 layout.tabWidth)⟩
    · exact ⟨_, hright (Nat.le_max_left 1 layout.tabWidth)⟩

theorem lt_of_next (htab : 0 < layout.tabWidth) (h : layout.next c p = some q) : p < q := by
  have hcases := next_cases h
  simp only [Position.lt_iff]
  omega

end TextLayout

/-! ## What a run of tokens does -/

/-- Every token leads to a larger position. -/
def Ruler.Ascends (ruler : Ruler τ) : Prop :=
  ∀ ⦃t : τ⦄ ⦃p q : Position⦄, ruler.next t p = some q → p < q

theorem Ruler.Ascends.lt_of_positionAfter {ruler : Ruler τ} (hruler : ruler.Ascends)
    {p q : Position} {ts : List τ} (hts : ts ≠ []) (h : ruler.positionAfter p ts = some q) :
    p < q := by
  induction ts generalizing p with
  | nil => exact absurd rfl hts
  | cons t ts ih =>
      rw [positionAfter_cons, Option.bind_eq_some_iff] at h
      obtain ⟨r, hr, hrest⟩ := h
      have hfirst : p < r := hruler hr
      by_cases hnil : ts = []
      · subst hnil
        obtain rfl : r = q := Option.some.inj hrest
        exact hfirst
      · exact Position.lt_trans hfirst (ih hnil hrest)

/-- If tabs have a width, text leads to larger positions. -/
theorem Ruler.ascends_of_layout {layout : TextLayout} (htab : 0 < layout.tabWidth) :
    (Ruler.ofString layout.next).Ascends := fun _ _ _ h => TextLayout.lt_of_next htab h

/-- A text of `n` characters moves at most `n` lines down. Its columns stay `n` times the widest
    character away from `limit`, if the start and the first column do not lie behind it. -/
theorem TextLayout.exists_positionAfter {layout : TextLayout} {ruler : Ruler Char}
    (hruler : ∀ c p, ruler.next c p = layout.next c p) {p : Position} {cs : List Char} {limit : Nat}
    (hline : p.line + cs.length ≤ Position.maxCoordinate) (hcolumn : p.column ≤ limit)
    (hfirst : layout.firstColumn ≤ limit)
    (hlimit : limit + cs.length * max 1 layout.tabWidth ≤ Position.maxCoordinate) :
    ∃ q, ruler.positionAfter p cs = some q := by
  induction cs generalizing p limit with
  | nil => exact ⟨p, rfl⟩
  | cons c cs ih =>
      rw [List.length_cons] at hline hlimit
      rw [Nat.succ_mul] at hlimit
      obtain ⟨r, hr⟩ : ∃ r, layout.next c p = some r := exists_next (by omega) (by omega)
      -- wherever the character leads, the limit has to move by the widest character only
      have hcases := next_cases hr
      have hmoved : r.column ≤ limit + max 1 layout.tabWidth := by omega
      obtain ⟨q, hq⟩ := ih (by omega) hmoved (by omega) (by omega)
      exact ⟨q, by rw [Ruler.positionAfter_cons, hruler, hr, Option.bind_some, hq]⟩

/-- Tokens that fill one column each need as many columns. -/
theorem Position.exists_positionAfter_afterToken {ruler : Ruler τ}
    (hruler : ∀ t p, ruler.next t p = p.afterToken) {p : Position} {ts : List τ}
    (hcolumn : p.column + ts.length ≤ maxCoordinate) :
    ∃ q, ruler.positionAfter p ts = some q := by
  induction ts generalizing p with
  | nil => exact ⟨p, rfl⟩
  | cons t ts ih =>
      rw [List.length_cons] at hcolumn
      have hnext : p.afterToken = some ⟨p.line, p.column + 1⟩ :=
        nextColumn_eq_some_iff.2 ⟨rfl, by omega⟩
      obtain ⟨q, hq⟩ : ∃ q, ruler.positionAfter ⟨p.line, p.column + 1⟩ ts = some q :=
        ih (show p.column + 1 + ts.length ≤ maxCoordinate by omega)
      exact ⟨q, by rw [Ruler.positionAfter_cons, hruler, hnext, Option.bind_some, hq]⟩

/-! ## Places of an input -/

namespace Place.LiesIn

variable {input : Input τ} {q q' : Place τ}

/-- A cursor stands for one place of the input. -/
theorem eq_of_cursor (h : q.LiesIn input) (h' : q'.LiesIn input) (hcursor : q.cursor = q'.cursor) :
    q = q' := by
  obtain ⟨past, hrest, hextent, hposition⟩ := h
  obtain ⟨past', hrest', hextent', hposition'⟩ := h'
  obtain ⟨cursor, position, rest⟩ := q
  obtain ⟨cursor', position', rest'⟩ := q'
  simp only [Place.start] at hrest hrest' hextent hextent' hposition hposition' hcursor
  subst hcursor
  have hsame : input.ruler.extent past = input.ruler.extent past' := by omega
  obtain ⟨rfl, rfl⟩ := Ruler.append_inj_of_extent_eq (hrest.symm.trans hrest') hsame
  obtain rfl : position = position' := Option.some.inj (hposition.symm.trans hposition')
  rfl

theorem position_lt (hruler : input.ruler.Ascends) (h : q.LiesIn input) (h' : q'.LiesIn input)
    (hcursor : q.cursor < q'.cursor) : q.position < q'.position := by
  obtain ⟨past, hrest, hextent, hposition⟩ := h
  obtain ⟨past', hrest', hextent', hposition'⟩ := h'
  simp only [Place.start] at hrest hrest' hextent hextent' hposition hposition'
  -- the place with the smaller cursor is the one with fewer tokens before it
  rcases List.append_eq_append_iff.1 (hrest.symm.trans hrest') with ⟨ts, rfl, -⟩ | ⟨ts, rfl, -⟩
  · rw [Ruler.extent_append] at hextent'
    have hts : ts ≠ [] := Ruler.extent_pos_iff.1 (show 0 < input.ruler.extent ts by omega)
    rw [Ruler.positionAfter_append, hposition] at hposition'
    exact hruler.lt_of_positionAfter hts hposition'
  · rw [Ruler.extent_append] at hextent
    omega

/-- The positions of places are ordered like the places. -/
theorem position_lt_iff (hruler : input.ruler.Ascends) (h : q.LiesIn input)
    (h' : q'.LiesIn input) : q.position < q'.position ↔ q.cursor < q'.cursor := by
  refine ⟨fun hposition => ?_, h.position_lt hruler h'⟩
  rcases Nat.lt_trichotomy q.cursor q'.cursor with hlt | heq | hgt
  · exact hlt
  · rw [h.eq_of_cursor h' heq] at hposition
    exact absurd hposition (Position.lt_irrefl _)
  · exact absurd (Position.lt_trans hposition (h'.position_lt hruler h hgt))
      (Position.lt_irrefl _)

/-- A place from which there is no way on is behind the tokens of which the fold goes as far as
    it can. -/
theorem exists_prefix_of_stuck (h : q.LiesIn input) (hstuck : q.next? input.ruler = none) :
    ∃ ts, ts <+: input.tokens ∧ input.ruler.positionAfter input.start ts = none := by
  obtain ⟨past, hpast⟩ := h
  exact hpast.exists_positionAfter_eq_none hstuck

end Place.LiesIn

/-! ## Overflow -/

/-- Over this input, no addition of coordinates overflows: in every state that can be reached the next
    token can be read, and no parser of any grammar stops for want of a position. -/
def Input.StaysInRange (input : Input τ) : Prop :=
  ∀ ⦃s : State τ⦄, State.Reachable input s →
    (∃ s', s.advance? input.ruler = some s') ∧
    ∀ {ρ : Type → Type} {ω α : Type} (rules : Parser.Rules τ ρ ω) (depth : Nat)
      (p : Parser τ ρ ω α) (copy : Nat) (events : List (Event ω)) (cells : Cells),
      ((p.eval input.ruler (Parser.calls input.ruler rules depth) copy).run
        ⟨s, events, cells⟩).1 ≠ .error .overflow

/-- A parser that overflows has come to a token that the fold over the input cannot pass either. -/
theorem Parser.exists_prefix_of_overflow {ρ : Type → Type} {ω α : Type} {input : Input τ}
    {s : State τ} (hs : s.place.LiesIn input) {rules : Rules τ ρ ω} {depth : Nat}
    {p : Parser τ ρ ω α} {copy : Nat} {events : List (Event ω)} {cells : Cells}
    (hrun : ((p.eval input.ruler (calls input.ruler rules depth) copy).run
      ⟨s, events, cells⟩).1 = .error .overflow) :
    ∃ ts, ts <+: input.tokens ∧ input.ruler.positionAfter input.start ts = none := by
  obtain ⟨ts, hpass, -, hstuck⟩ := moves_eval_calls input.ruler rules depth p copy
    (Eq.refl ((p.eval input.ruler (calls input.ruler rules depth) copy).run ⟨s, events, cells⟩))
  exact (hs.passes hpass).exists_prefix_of_stuck (hstuck hrun)

theorem Input.staysInRange_of_positionAfter {input : Input τ}
    (h : ∀ ts, ts <+: input.tokens → ∃ q, input.ruler.positionAfter input.start ts = some q) :
    input.StaysInRange := by
  have hnever : ¬ ∃ ts, ts <+: input.tokens ∧ input.ruler.positionAfter input.start ts = none := by
    rintro ⟨ts, hprefix, hnone⟩
    obtain ⟨q, hq⟩ := h ts hprefix
    rw [hnone] at hq
    cases hq
  intro s hs
  refine ⟨?_, fun rules depth p copy events cells hoverflow =>
    hnever (Parser.exists_prefix_of_overflow hs.liesIn.place hoverflow)⟩
  rcases hnext : s.place.next? input.ruler with _ | q
  · exact absurd (hs.liesIn.place.exists_prefix_of_stuck hnext) hnever
  · exact ⟨{ s with place := q }, by simp only [State.advance?, hnext, Option.map_some]⟩

/-- **Reading again does not overflow.** A parse over an input, from any state that can be reached,
    stops with an overflow only if the fold of the ruler over some tokens at the start of the input
    has no result. So there is no overflow over a text of `n` characters, if `n` lines and `n` times
    the width of the widest character still fit behind the start and the first column, nor over a
    list of `n` tokens, if `n` columns still fit behind the start. -/
theorem Input.overflow_only_beyond_fold :
    (∀ {τ : Type} {input : Input τ} {s : State τ}, State.Reachable input s →
      ∀ {ρ : Type → Type} {ω α : Type} (rules : Parser.Rules τ ρ ω) (depth : Nat)
        (p : Parser τ ρ ω α) (copy : Nat) (events : List (Event ω)) (cells : Cells),
        ((p.eval input.ruler (Parser.calls input.ruler rules depth) copy).run
          ⟨s, events, cells⟩).1 = .error .overflow →
        ∃ ts, ts <+: input.tokens ∧ input.ruler.positionAfter input.start ts = none) ∧
    (∀ (layout : TextLayout) (input : Input Char),
      input.start.line + input.tokens.length ≤ Position.maxCoordinate →
      max input.start.column layout.firstColumn +
        input.tokens.length * max 1 layout.tabWidth ≤ Position.maxCoordinate →
      (input.countingBy layout.next).StaysInRange) ∧
    ∀ {τ : Type} (input : Input τ),
      input.start.column + input.tokens.length ≤ Position.maxCoordinate →
      (input.countingBy fun _ p => p.afterToken).StaysInRange := by
  refine ⟨fun hs => ?_, fun layout input hline hcolumn => ?_, fun input hcolumn => ?_⟩
  · intro ρ ω α rules depth p copy events cells hoverflow
    exact Parser.exists_prefix_of_overflow hs.liesIn.place hoverflow
  · refine staysInRange_of_positionAfter fun ts hprefix => ?_
    have hlength : ts.length ≤ input.tokens.length := hprefix.length_le
    have hwidth : ts.length * max 1 layout.tabWidth ≤
        input.tokens.length * max 1 layout.tabWidth := Nat.mul_le_mul_right _ hlength
    have hline' : input.start.line + ts.length ≤ Position.maxCoordinate := by omega
    have hcolumn' : max input.start.column layout.firstColumn +
        ts.length * max 1 layout.tabWidth ≤ Position.maxCoordinate := by omega
    exact TextLayout.exists_positionAfter (fun _ _ => rfl) hline' (Nat.le_max_left _ _)
      (Nat.le_max_right _ _) hcolumn'
  · refine staysInRange_of_positionAfter fun ts hprefix => ?_
    have hlength : ts.length ≤ input.tokens.length := hprefix.length_le
    exact Position.exists_positionAfter_afterToken (fun _ _ => rfl)
      (show input.start.column + ts.length ≤ Position.maxCoordinate by omega)

/-- Three characters of at most four columns fit in if the last column is twelve further on, however
    often they are read. If it is seven further on, the second tab does not fit: the parse stops there
    when it has come back, and the fold does so as well. -/
theorem Input.overflow_only_beyond_fold_tabs :
    let input (n : Nat) : Input Char :=
      ⟨['\t', '\n', '\t'], Ruler.ofString (TextLayout.next {}), ⟨1, Position.maxCoordinate - n⟩⟩
    let p : Parser Char (fun _ => Empty) Unit (List Char) :=
      .orElse (.safe (.tokens ['\t', '\n', 'a'])) (.tokens ['\t', '\n', '\t'])
    let x := p.eval (input 7).ruler (Parser.calls (input 7).ruler (fun _ => Empty.elim) 0) 0
    (input 12).StaysInRange ∧
    (x.run ⟨(input 7).initialState, [], .empty⟩).1 = .error .overflow ∧
    ∃ ts, ts <+: (input 7).tokens ∧
      (input 7).ruler.positionAfter (input 7).start ts = none := by
  intro input p x
  obtain ⟨honly, htext, -⟩ := Input.overflow_only_beyond_fold
  have hoverflow : (x.run ⟨(input 7).initialState, [], .empty⟩).1 = .error .overflow := rfl
  exact ⟨htext {} (input 12) (by decide) (by decide), hoverflow,
    honly .initial _ 0 p 0 [] .empty hoverflow⟩

end CommittedChoice
