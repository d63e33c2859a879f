import CommittedChoice.Proofs.MaximalMunch

set_option autoImplicit false

/-! # What a report tells

The report of an error shows its expectations line by line. An entry has one line, and its causes
follow in lines one level deeper, so that only margins and announcements tell which entry is a cause
of which. The texts of entries are free: they may look like a margin, a bracket or an announcement.
But as long as they have no line breaks, nothing is lost.

The argument reads the lines one after another. A line ends where the next line break is, and the
first character that is not a blank shows how deep it is (`ParseError.levelLine_inj`). What stands
behind a list of entries is less deep than they are (`ParseError.Outside`), so that the lines of the
list and what stands behind them can both be read off their text
(`ParseError.listReport_append_inj`, by induction on the entries and their causes, at every depth).
The main statement is `ParseError.report_determines_tree`. -/

namespace CommittedChoice

variable {τ : Type} [TokenText τ]

/-! ## What is shown of expectations -/

namespace Expected

/-- Neither the label nor a token of an entry is shown with a line break. -/
def InOneLine : Expected τ → Prop
  | tokens ts => ∀ t ∈ ts, '\n' ∉ (TokenText.text t).toList
  | labelled label _ => '\n' ∉ label.toList
  | endOfInput => True
  | noInput => True

/-- No label and no token of the entries is shown with a line break, and so on for their causes. -/
inductive AllInOneLine : List (Expected τ) → Prop
  | nil : AllInOneLine []
  | cons {entry : Expected τ} {entries : List (Expected τ)} (hentry : entry.InOneLine)
      (hcauses : AllInOneLine entry.causes) (hentries : AllInOneLine entries) :
      AllInOneLine (entry :: entries)

/-- As many entries on both sides, in the same order with the same texts, and so on for their
    causes. -/
inductive ShownAlike : List (Expected τ) → List (Expected τ) → Prop
  | nil : ShownAlike [] []
  | cons {entry entry' : Expected τ} {entries entries' : List (Expected τ)}
      (htext : entry.render = entry'.render) (hcauses : ShownAlike entry.causes entry'.causes)
      (hentries : ShownAlike entries entries') : ShownAlike (entry :: entries) (entry' :: entries')

theorem ShownAlike.isEmpty_eq {entries entries' : List (Expected τ)}
    (h : ShownAlike entries entries') : entries.isEmpty = entries'.isEmpty := by
  cases h <;> rfl

theorem not_mem_intercalate {c : Char} {sep : List Char} {texts : List (List Char)}
    (hsep : c ∉ sep) (htexts : ∀ text ∈ texts, c ∉ text) : c ∉ sep.intercalate texts := by
  induction texts with
  | nil => simp
  | cons text texts ih =>
      have htext := htexts text List.mem_cons_self
      have hrest := ih fun text' h => htexts text' (List.mem_cons_of_mem text h)
      by_cases hend : texts = []
      · simpa [hend] using htext
      · rw [List.intercalate_cons_of_ne_nil hend]
        simp [htext, hsep, hrest]

theorem InOneLine.not_mem_render {entry : Expected τ} (h : entry.InOneLine) :
    '\n' ∉ entry.render.toList := by
  cases entry with
  | tokens ts =>
      rw [render, String.toList_intercalate, List.map_map]
      refine not_mem_intercalate (by decide) fun text htext => ?_
      obtain ⟨t, ht, rfl⟩ := List.mem_map.1 htext
      exact h t ht
  | labelled label causes =>
      have hlabel : '\n' ∉ label.toList := h
      simp [render, hlabel]
  | endOfInput => exact (by decide : '\n' ∉ "EOF".toList)
  | noInput => exact (by decide : '\n' ∉ "No Input".toList)

end Expected

namespace ParseError

open Expected

/-! ## Lines -/

/-- A line of a given depth, led by its line break. `c` is the first character behind the margin. -/
def levelLine (depth : Nat) (c : Char) (text : List Char) : List Char :=
  '\n' :: (List.replicate (4 * depth) ' ' ++ c :: text)

/-- The text is empty or goes on with a line that is less deep. -/
def Outside (depth : Nat) (text : List Char) : Prop :=
  text = [] ∨ ∃ d < depth, ∃ c rest, c ≠ ' ' ∧ text = levelLine d c rest

/-- The announcement of causes and their lines; nothing if there are no causes. -/
def causesReport (depth : Nat) (causes : List (Expected τ)) : List Char :=
  if causes.isEmpty then []
  else levelLine depth 'D' ("ue to: ".toList ++ (listReport (depth + 1) causes).toList)

variable {depth d d' : Nat} {c c' : Char} {text text' rest rest' : List Char}
  {entry : Expected τ} {entries entries' causes causes' : List (Expected τ)}

/-- The first character that is not a blank shows how deep a line is. -/
theorem levelLine_inj (hc : c ≠ ' ') (hc' : c' ≠ ' ')
    (h : levelLine d c text = levelLine d' c' text') : d = d' ∧ c = c' ∧ text = text' := by
  have hblank : ∀ n, ∀ b ∈ List.replicate (4 * n) ' ', (b == ' ') = true := fun n b hb =>
    beq_iff_eq.2 (List.eq_of_mem_replicate hb)
  have hbehind : ∀ {b : Char}, b ≠ ' ' → ∀ bs, Halts (· == ' ') (b :: bs) := by
    intro b hb bs
    refine .cons ?_ bs
    exact beq_eq_false_iff_ne.2 hb
  obtain ⟨hmargin, htext⟩ := append_inj_of_halts (hblank d) (hblank d') (hbehind hc text)
    (hbehind hc' text') (List.cons.inj h).2
  have hdepth := congrArg List.length hmargin
  simp only [List.length_replicate] at hdepth
  exact ⟨by omega, List.cons.inj htext⟩

theorem levelLine_append :
    levelLine depth c text ++ rest = levelLine depth c (text ++ rest) := by
  simp [levelLine]

theorem causesReport_of_ne_nil (h : causes ≠ []) :
    causesReport depth causes =
      levelLine depth 'D' ("ue to: ".toList ++ (listReport (depth + 1) causes).toList) := by
  rw [causesReport, if_neg (by simpa using h)]

theorem toList_listReport_nil : (listReport depth ([] : List (Expected τ))).toList = [] := by
  simp [listReport]

theorem toList_listReport_cons :
    (listReport depth (entry :: entries)).toList =
      levelLine depth '<' (entry.render.toList ++ '>' ::
        (causesReport depth entry.causes ++ (listReport depth entries).toList)) := by
  rw [listReport]
  cases entry with
  | labelled label causes =>
      cases causes with
      | nil => simp [entryReport, entryLine, margin, causesReport, levelLine, Expected.causes]
      | cons cause causes =>
          simp [entryReport, entryLine, causesLine, margin, causesReport, levelLine,
            Expected.causes, listReport]
  | _ => simp [entryReport, entryLine, margin, causesReport, levelLine, Expected.causes]

/-! ## What stands behind a list -/

theorem Outside.ne_levelLine (h : Outside depth text) (hc : c ≠ ' ') :
    text ≠ levelLine depth c rest := by
  rintro rfl
  rcases h with hempty | ⟨d, hd, b, bs, hb, hline⟩
  · cases hempty
  · obtain ⟨rfl, -⟩ := levelLine_inj hc hb hline
    exact absurd hd (Nat.lt_irrefl depth)

/-- What stands behind causes is less deep than they are: the next entry, or what stands behind the
    entries. -/
theorem Outside.listReport_append (h : Outside depth text) (entries : List (Expected τ)) :
    Outside (depth + 1) ((listReport depth entries).toList ++ text) := by
  cases entries with
  | nil =>
      rw [toList_listReport_nil]
      rcases h with rfl | ⟨d, hd, hline⟩
      · exact .inl rfl
      · exact .inr ⟨d, Nat.lt_succ_of_lt hd, hline⟩
  | cons entry entries =>
      rw [toList_listReport_cons, levelLine_append]
      exact .inr ⟨depth, Nat.lt_succ_self depth, '<', _, by decide, rfl⟩

theorem Outside.listReport_append_ne (h : Outside depth text) (entries : List (Expected τ))
    (rest : List Char) : (listReport depth entries).toList ++ text ≠ levelLine depth 'D' rest := by
  cases entries with
  | nil =>
      rw [toList_listReport_nil]
      exact h.ne_levelLine (by decide)
  | cons entry entries =>
      rw [toList_listReport_cons, levelLine_append]
      intro hline
      obtain ⟨-, hc, -⟩ := levelLine_inj (by decide) (by decide) hline
      cases hc

theorem Outside.halts (h : Outside depth text) : Halts (· != '\n') text := by
  rcases h with rfl | ⟨d, -, c, rest, -, rfl⟩
  · exact .nil
  · exact .cons rfl _

theorem halts_causesReport_append (h : Halts (· != '\n') text) (causes : List (Expected τ)) :
    Halts (· != '\n') (causesReport depth causes ++ text) := by
  cases causes with
  | nil => exact h
  | cons cause causes => exact .cons rfl _

/-! ## Reading a report -/

/-- An entry is read off its line. -/
theorem entryText_inj {entry' : Expected τ} (hentry : entry.InOneLine) (hentry' : entry'.InOneLine)
    (htext : Halts (· != '\n') text) (htext' : Halts (· != '\n') text')
    (h : entry.render.toList ++ '>' :: text = entry'.render.toList ++ '>' :: text') :
    entry.render = entry'.render ∧ text = text' := by
  have hline : ∀ {e : Expected τ}, e.InOneLine →
      ∀ c ∈ e.render.toList ++ ['>'], (c != '\n') = true := by
    intro e he c hc
    rw [bne_iff_ne]
    rintro rfl
    rcases List.mem_append.1 hc with hc | hc
    · exact he.not_mem_render hc
    · simp at hc
  rw [List.append_cons, List.append_cons _ '>' text'] at h
  obtain ⟨hrender, hrest⟩ := append_inj_of_halts (hline hentry) (hline hentry') htext htext' h
  exact ⟨String.toList_inj.1 (List.append_cancel_right hrender), hrest⟩

/-- The announcement shows whether there are causes. -/
theorem causesReport_append_inj (htext : ∀ rest, text ≠ levelLine depth 'D' rest)
    (htext' : ∀ rest, text' ≠ levelLine depth 'D' rest)
    (h : causesReport depth causes ++ text = causesReport depth causes' ++ text') :
    (listReport (depth + 1) causes).toList ++ text =
      (listReport (depth + 1) causes').toList ++ text' := by
  by_cases hnone : causes = [] <;> by_cases hnone' : causes' = []
  · rw [hnone, hnone'] at h ⊢
    exact congrArg _ h
  · rw [hnone, causesReport_of_ne_nil hnone', levelLine_append] at h
    exact absurd h (htext _)
  · rw [hnone', causesReport_of_ne_nil hnone, levelLine_append] at h
    exact absurd h.symm (htext' _)
  · rw [causesReport_of_ne_nil hnone, causesReport_of_ne_nil hnone', levelLine_append,
      levelLine_append] at h
    obtain ⟨-, -, h⟩ := levelLine_inj (by decide) (by decide) h
    rw [List.append_assoc, List.append_assoc] at h
    exact List.append_cancel_left h

/-- The lines of a list of entries, and with them what stands behind, are read off the text. -/
theorem listReport_append_inj (hentries : AllInOneLine entries) (hentries' : AllInOneLine entries')
    (htext : Outside depth text) (htext' : Outside depth text')
    (h : (listReport depth entries).toList ++ text = (listReport depth entries').toList ++ text') :
    ShownAlike entries entries' ∧ text = text' := by
  induction hentries generalizing depth entries' text text' with
  | nil =>
      cases hentries' with
      | nil => exact ⟨.nil, List.append_cancel_left h⟩
      | cons =>
          rw [toList_listReport_nil, toList_listReport_cons, levelLine_append] at h
          exact absurd h (htext.ne_levelLine (by decide))
  | @cons entry entries hentry _ _ ihcauses ihentries =>
      cases hentries' with
      | nil =>
          rw [toList_listReport_nil, toList_listReport_cons, levelLine_append] at h
          exact absurd h.symm (htext'.ne_levelLine (by decide))
      | @cons entry' entries' hentry' hcauses' hentries' =>
          -- the line of the entry is read first, then its causes, and then the entries behind it
          have hbehind := htext.listReport_append entries
          have hbehind' := htext'.listReport_append entries'
          rw [toList_listReport_cons, toList_listReport_cons, levelLine_append,
            levelLine_append] at h
          obtain ⟨-, -, h⟩ := levelLine_inj (by decide) (by decide) h
          simp only [List.append_assoc, List.cons_append] at h
          obtain ⟨hrender, h⟩ := entryText_inj hentry hentry'
            (halts_causesReport_append hbehind.halts entry.causes)
            (halts_causesReport_append hbehind'.halts entry'.causes) h
          obtain ⟨hcauses, h⟩ := ihcauses hcauses' hbehind hbehind'
            (causesReport_append_inj (htext.listReport_append_ne entries)
              (htext'.listReport_append_ne entries') h)
          obtain ⟨hentries, h⟩ := ihentries hentries' htext htext' h
          exact ⟨.cons hrender hcauses hentries, h⟩

/-! ## Writing a report -/

theorem causesReport_congr (hempty : causes.isEmpty = causes'.isEmpty)
    (hlist : listReport (depth + 1) causes = listReport (depth + 1) causes') :
    causesReport depth causes = causesReport depth causes' := by
  rw [causesReport, causesReport, hempty, hlist]

/-- Entries that are shown alike have the same lines. -/
theorem listReport_eq_of_shownAlike (h : ShownAlike entries entries') (depth : Nat) :
    listReport depth entries = listReport depth entries' := by
  induction h generalizing depth with
  | nil => rfl
  | cons htext hcauses _ ihcauses ihentries =>
      have hbelow := causesReport_congr hcauses.isEmpty_eq (ihcauses (depth + 1))
      rw [← String.toList_inj, toList_listReport_cons, toList_listReport_cons, htext, hbelow,
        ihentries depth]

theorem listReport_eq_iff (h : AllInOneLine entries) (h' : AllInOneLine entries') :
    listReport depth entries = listReport depth entries' ↔ ShownAlike entries entries' := by
  constructor
  · intro heq
    exact (listReport_append_inj h h' (.inl rfl) (.inl rfl) (congrArg (·.toList ++ []) heq)).1
  · intro halike
    exact listReport_eq_of_shownAlike halike depth

/-! ## The whole report -/

theorem listReport_eq_empty_iff : listReport depth entries = "" ↔ entries = [] := by
  cases entries with
  | nil => simp [listReport]
  | cons entry entries =>
      rw [← String.toList_inj, toList_listReport_cons]
      simp [levelLine]

/-- The heading is left out exactly if there is nothing under it. -/
theorem expectedReport_eq_iff :
    expectedReport entries = expectedReport entries' ↔
      listReport 1 entries = listReport 1 entries' := by
  have hheading : ∀ lines : String, "\nExpected:" ++ lines ≠ "" := by
    intro lines h
    simpa using congrArg String.toList h
  have hlines : ∀ (e : Expected τ) es, listReport 1 (e :: es) ≠ "" := fun e es h =>
    List.cons_ne_nil e es (listReport_eq_empty_iff.1 h)
  cases entries with
  | nil =>
      cases entries' with
      | nil => exact iff_of_true rfl rfl
      | cons entry' entries' =>
          exact iff_of_false (hheading _).symm (hlines entry' entries').symm
  | cons entry entries =>
      cases entries' with
      | nil => exact iff_of_false (hheading _) (hlines entry entries)
      | cons entry' entries' => exact String.append_right_inj "\nExpected:"

theorem report_mk (cause : Cause τ) (entries : List (Expected τ)) (message : String) :
    report ⟨cause, entries, message⟩ =
      "Parse error." ++ (if message.isEmpty then "" else "\n" ++ message) ++ unexpectedReport cause
        ++ expectedReport entries ++ "\nat " ++ cause.position.render := rfl

theorem report_eq_iff {cause : Cause τ} {message : String} :
    report ⟨cause, entries, message⟩ = report ⟨cause, entries', message⟩ ↔
      expectedReport entries = expectedReport entries' := by
  rw [report_mk, report_mk, String.append_left_inj, String.append_left_inj,
    String.append_right_inj]

/-- **A report determines the tree of what it shows.** Take two errors with the same cause and
    message, and let no label and no token that they expect, at any depth, be shown with a line
    break. Then the errors have the same report exactly if what they expect is shown alike: as many
    entries in the same order, with the same texts, and with causes of which the same holds. -/
theorem report_determines_tree (cause : Cause τ) (message : String) (h : AllInOneLine entries)
    (h' : AllInOneLine entries') :
    report ⟨cause, entries, message⟩ = report ⟨cause, entries', message⟩ ↔
      ShownAlike entries entries' := by
  rw [report_eq_iff, expectedReport_eq_iff, listReport_eq_iff h h']

/-- The same three entries, with the last one as a cause or not: the texts look like margins and
    announcements, and still the reports differ. -/
theorem report_determines_tree_lookalikes :
    let last : Expected String := .tokens ["Due to: ", "    <"]
    let inside : List (Expected String) := [.labelled "value" [.tokens [">"], last]]
    let behind : List (Expected String) := [.labelled "value" [.tokens [">"]], last]
    AllInOneLine inside ∧ AllInOneLine behind ∧
    report ⟨⟨some "x", ⟨2, 5⟩, false⟩, inside, ""⟩ ≠
      report ⟨⟨some "x", ⟨2, 5⟩, false⟩, behind, ""⟩ := by
  intro last inside behind
  have hbracket : (.tokens [">"] : Expected String).InOneLine := by
    simp [InOneLine, TokenText.text]
  have hlast : last.InOneLine := by simp [last, InOneLine, TokenText.text]
  have hlabel : '\n' ∉ "value".toList := by decide
  have hinside : AllInOneLine inside :=
    .cons hlabel (.cons hbracket .nil (.cons hlast .nil .nil)) .nil
  have hbehind : AllInOneLine behind :=
    .cons hlabel (.cons hbracket .nil .nil) (.cons hlast .nil .nil)
  refine ⟨hinside, hbehind, fun heq => ?_⟩
  have halike := (report_determines_tree _ _ hinside hbehind).1 heq
  simp only [inside, behind] at halike
  cases halike with
  | cons _ _ hrest => cases hrest

end ParseError

end CommittedChoice
