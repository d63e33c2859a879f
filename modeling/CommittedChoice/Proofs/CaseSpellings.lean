import CommittedChoice.Proofs.AnyCase

set_option autoImplicit false

/-! # The spellings that a text in any case expects

A text in any case says that it expects two spellings, the lower-case and the upper-case form of the
whole text. But it is read character by character, by the lower-case forms of single characters, and
the two do not always agree: a form may have more characters than the text, a capital sigma becomes
another letter at the end of a word, and the upper-case form of a character may have a lower-case
form that is not the one of the character. So there are texts that refuse a spelling which they
expect, and this module says which.

Three facts come together. Reading everything means that the characters match one by one
(`Parser.readsAll_anyCase_iff`). A form of a text has at least one character for each of the text,
so that it matches only if each becomes a single one (`Text.map_lowerChar_append_iff`). And in lower
case all characters but one do, and become characters that are left alone
(`Text.exists_lowerChar_eq`, by a look through the table). The main statement is
`Parser.anyCase_reads_spellings_iff`. -/

namespace CommittedChoice

namespace Text

/-! ## Mappings that need to be made once -/

namespace CaseRun

variable {run : CaseRun} {n m lo hi : Nat} {alternate : Bool}

/-- The lowest code point to which a run moves one. -/
def lowest (run : CaseRun) : Nat := (run.first + run.shift).toNat

/-- The highest code point to which a run moves one. -/
def highest (run : CaseRun) : Nat := (run.last + run.shift).toNat

/-- No two neighbouring code points are moved. -/
def alternates (run : CaseRun) : Bool := run.step % 2 == 0 || run.first == run.last

/-- Of the code points from `lo` to `hi`, or of every other one, the run moves none. -/
def misses (run : CaseRun) (lo hi : Nat) (alternate : Bool) : Bool :=
  hi.blt run.first || run.last.blt lo ||
    (alternate && run.step % 2 == 0 && (lo + run.first) % 2 == 1)

theorem target?_eq_some_iff :
    run.target? n = some m ↔ run.first ≤ n ∧ n ≤ run.last ∧ (n - run.first) % run.step = 0 ∧
      (n + run.shift).toNat = m := by
  unfold target?
  split <;> simp_all

theorem even_of_mod_eq_zero {k step : Nat} (hstep : step % 2 = 0) (hk : k % step = 0) :
    k % 2 = 0 :=
  Nat.mod_eq_zero_of_dvd
    (Nat.dvd_trans (Nat.dvd_of_mod_eq_zero hstep) (Nat.dvd_of_mod_eq_zero hk))

/-- Where the targets of a run are. -/
theorem target?_bounds (hrun : 0 ≤ run.first + run.shift) (h : run.target? n = some m) :
    run.lowest ≤ m ∧ m ≤ run.highest ∧ (run.alternates = true → m % 2 = run.lowest % 2) := by
  obtain ⟨hfirst, hlast, hstep, rfl⟩ := target?_eq_some_iff.1 h
  refine ⟨by unfold lowest; omega, by unfold highest; omega, fun halternates => ?_⟩
  have heven : (n - run.first) % 2 = 0 := by
    rcases Bool.or_eq_true_iff.1 halternates with heven | hsingle
    · exact even_of_mod_eq_zero (beq_iff_eq.1 heven) hstep
    · have hsingle := beq_iff_eq.1 hsingle
      omega
  unfold lowest
  omega

theorem target?_eq_none_of_misses (h : run.misses lo hi alternate = true) (hlo : lo ≤ n)
    (hhi : n ≤ hi) (halternate : alternate = true → n % 2 = lo % 2) : run.target? n = none := by
  refine Option.eq_none_iff_forall_ne_some.2 fun m htarget => ?_
  obtain ⟨hfirst, hlast, hstep, -⟩ := target?_eq_some_iff.1 htarget
  simp only [misses, Bool.or_eq_true, Bool.and_eq_true, Nat.blt_eq, beq_iff_eq] at h
  rcases h with (hbefore | hbehind) | ⟨⟨halt, heven⟩, hodd⟩
  · omega
  · omega
  · have hsame := halternate halt
    have heven := even_of_mod_eq_zero heven hstep
    omega

end CaseRun

namespace CaseMapping

variable {mapping : CaseMapping} {run : CaseRun} {c : Char} {n m : Nat}

/-- The targets of a run are characters that the mapping leaves alone. -/
def settles (mapping : CaseMapping) (run : CaseRun) : Bool :=
  decide (0 ≤ run.first + run.shift) &&
  (run.highest.blt 0xD800 || Nat.blt 0xDFFF run.lowest && run.highest.blt 0x110000) &&
  mapping.expansions.all (fun e => run.highest.blt e.1 || e.1.blt run.lowest) &&
  mapping.runs.all fun other => other.misses run.lowest run.highest run.alternates

theorem apply_ofNat_of_settles (h : mapping.settles run = true) (htarget : run.target? n = some m) :
    mapping.apply (Char.ofNat m) = [Char.ofNat m] := by
  simp only [settles, Bool.and_eq_true, Bool.or_eq_true, decide_eq_true_eq, Nat.blt_eq,
    List.all_eq_true] at h
  obtain ⟨⟨⟨hrun, hvalid⟩, hexpansions⟩, hruns⟩ := h
  obtain ⟨hlo, hhi, halternate⟩ := CaseRun.target?_bounds hrun htarget
  have hchar : m.isValidChar := by
    unfold Nat.isValidChar
    omega
  have hm : (Char.ofNat m).toNat = m := congrArg Char.toNat (dif_pos hchar)
  have hlookup : mapping.expansions.lookup m = none := by
    refine List.lookup_eq_none_iff.2 fun e he => bne_iff_ne.2 ?_
    have hapart := hexpansions e he
    omega
  have hfind : mapping.runs.findSome? (·.target? m) = none :=
    List.findSome?_eq_none_iff.2 fun other hother =>
      CaseRun.target?_eq_none_of_misses (hruns other hother) hlo hhi halternate
  rw [apply, hm, hlookup, hfind]

/-- A character that does not become several is mapped to one that the mapping leaves alone. -/
theorem exists_apply_eq (hmapping : ∀ run ∈ mapping.runs, mapping.settles run = true)
    (hc : mapping.expansions.lookup c.toNat = none) :
    ∃ d, mapping.apply c = [d] ∧ mapping.apply d = [d] := by
  rcases hfind : mapping.runs.findSome? (·.target? c.toNat) with _ | m
  · have hself : mapping.apply c = [c] := by rw [apply, hc, hfind]
    exact ⟨c, hself, hself⟩
  · obtain ⟨run, hrun, htarget⟩ := List.exists_of_findSome?_eq_some hfind
    have hmoved : mapping.apply c = [Char.ofNat m] := by rw [apply, hc, hfind]
    exact ⟨Char.ofNat m, hmoved, apply_ofNat_of_settles (hmapping run hrun) htarget⟩

theorem apply_ne_nil (hmapping : ∀ e ∈ mapping.expansions, e.2 ≠ []) (c : Char) :
    mapping.apply c ≠ [] := by
  unfold apply
  split
  next ns hlookup =>
    obtain ⟨before, after, heq, -⟩ := List.lookup_eq_some_iff.1 hlookup
    have hns : ns ≠ [] := hmapping (c.toNat, ns) (heq ▸ List.mem_append_right _ List.mem_cons_self)
    simpa using hns
  next => split <;> exact List.cons_ne_nil _ _

end CaseMapping

theorem settles_lowerMapping : ∀ run ∈ lowerRuns, lowerMapping.settles run = true := by
  decide +kernel

/-- Only one character becomes several in lower case; any other becomes one that stays as it is. -/
theorem exists_lowerChar_eq {c : Char} (hc : c ≠ 'İ') :
    ∃ d, lowerChar c = [d] ∧ lowerChar d = [d] := by
  refine CaseMapping.exists_apply_eq settles_lowerMapping (List.lookup_eq_none_iff.2 ?_)
  intro e he
  obtain rfl := List.mem_singleton.1 he
  exact bne_iff_ne.2 fun h => hc (Char.toNat_inj.1 h)

theorem lowerChar_ne_nil (c : Char) : lowerChar c ≠ [] :=
  CaseMapping.apply_ne_nil (by decide) c

theorem upperChar_ne_nil (c : Char) : upperChar c ≠ [] :=
  CaseMapping.apply_ne_nil (by decide) c

/-! ## Spellings that match

A spelling is made of pieces, one for each character of the text. As no piece is empty, it has as
many characters as the text only if each piece is a single one. -/

/-- A piece of a spelling matches a character: it is a single one with the same lower-case form. -/
def Matches (piece : List Char) (c : Char) : Prop := ∃ d, piece = [d] ∧ lowerChar d = lowerChar c

theorem map_lowerChar_append_iff {piece spelling text : List Char} {c : Char} (hpiece : piece ≠ [])
    (hlength : text.length ≤ spelling.length) :
    (piece ++ spelling).map lowerChar = (c :: text).map lowerChar ↔
      Matches piece c ∧ spelling.map lowerChar = text.map lowerChar := by
  obtain ⟨d, ds, rfl⟩ := List.exists_cons_of_ne_nil hpiece
  constructor
  · intro h
    have htotal := congrArg List.length h
    simp only [List.length_map, List.length_append, List.length_cons] at htotal
    obtain rfl : ds = [] := List.eq_nil_of_length_eq_zero (by omega)
    obtain ⟨hd, hspelling⟩ := List.cons.inj h
    exact ⟨⟨d, rfl, hd⟩, hspelling⟩
  · rintro ⟨⟨d', hd', hform⟩, hspelling⟩
    rw [hd', List.singleton_append, List.map_cons, List.map_cons, hform, hspelling]

/-! ### Upper case -/

theorem length_le_length_upperText (text : List Char) :
    text.length ≤ (upperText text).length := by
  induction text with
  | nil => exact Nat.le_refl 0
  | cons c text ih =>
      have hpiece := List.length_pos_iff.2 (upperChar_ne_nil c)
      simp only [upperText, List.flatMap_cons, List.length_append, List.length_cons] at ih ⊢
      omega

theorem map_lowerChar_upperText_iff {text : List Char} :
    (upperText text).map lowerChar = text.map lowerChar ↔ ∀ c ∈ text, Matches (upperChar c) c := by
  induction text with
  | nil => simp [upperText]
  | cons c text ih =>
      have hstep : upperText (c :: text) = upperChar c ++ upperText text := List.flatMap_cons
      rw [hstep, map_lowerChar_append_iff (upperChar_ne_nil c) (length_le_length_upperText text),
        ih, List.forall_mem_cons]

/-! ### Lower case -/

/-- The text has no dotted capital I, which becomes two characters, and no capital sigma at the end
    of a word. `before` is what precedes the text, last character first. -/
def LowersEvenly (before text : List Char) : Prop :=
  'İ' ∉ text ∧
    ∀ front back, text = front ++ 'Σ' :: back → endsWord (front.reverse ++ before) back = false

/-- The piece that a character of a text becomes in lower case. -/
def lowerPiece (before : List Char) (c : Char) (after : List Char) : List Char :=
  if c = 'Σ' then [if endsWord before after then 'ς' else 'σ'] else lowerChar c

theorem lowerFrom_cons (before : List Char) (c : Char) (after : List Char) :
    lowerFrom before (c :: after) =
      lowerPiece before c after ++ lowerFrom (c :: before) after := rfl

theorem lowerPiece_ne_nil (before : List Char) (c : Char) (after : List Char) :
    lowerPiece before c after ≠ [] := by
  unfold lowerPiece
  split
  · exact List.cons_ne_nil _ _
  · exact lowerChar_ne_nil c

theorem length_le_length_lowerFrom (before text : List Char) :
    text.length ≤ (lowerFrom before text).length := by
  induction text generalizing before with
  | nil => exact Nat.le_refl 0
  | cons c text ih =>
      have hpiece := List.length_pos_iff.2 (lowerPiece_ne_nil before c text)
      have htail := ih (c :: before)
      rw [lowerFrom_cons, List.length_append, List.length_cons]
      omega

theorem matches_lowerPiece_iff {before after : List Char} {c : Char} :
    Matches (lowerPiece before c after) c ↔
      c ≠ 'İ' ∧ (c = 'Σ' → endsWord before after = false) := by
  by_cases hsigma : c = 'Σ'
  · subst hsigma
    rw [lowerPiece, if_pos rfl]
    cases hend : endsWord before after with
    | false => exact iff_of_true ⟨'σ', rfl, by decide⟩ ⟨by decide, fun _ => rfl⟩
    | true =>
        refine iff_of_false ?_ fun h => Bool.noConfusion (h.2 rfl)
        rintro ⟨d, ⟨⟩, hform⟩
        exact absurd hform (by decide)
  · rw [lowerPiece, if_neg hsigma]
    by_cases hdotted : c = 'İ'
    · subst hdotted
      refine iff_of_false ?_ fun h => h.1 rfl
      rintro ⟨d, htwo, -⟩
      exact absurd (congrArg List.length htwo) (by decide : (lowerChar 'İ').length ≠ 1)
    · obtain ⟨d, hd, hself⟩ := exists_lowerChar_eq hdotted
      have hmatches : Matches (lowerChar c) c := ⟨d, hd, hself.trans hd.symm⟩
      exact iff_of_true hmatches ⟨hdotted, fun h => absurd h hsigma⟩

theorem lowersEvenly_cons {before after : List Char} {c : Char} :
    LowersEvenly before (c :: after) ↔
      (c ≠ 'İ' ∧ (c = 'Σ' → endsWord before after = false)) ∧ LowersEvenly (c :: before) after := by
  constructor
  · rintro ⟨hdotted, hsigma⟩
    rw [List.mem_cons, not_or] at hdotted
    refine ⟨⟨Ne.symm hdotted.1, ?_⟩, hdotted.2, ?_⟩
    · rintro rfl
      exact hsigma [] after rfl
    · rintro front back rfl
      have hends := hsigma (c :: front) back rfl
      rwa [List.reverse_cons, List.append_assoc] at hends
  · rintro ⟨⟨hc, hfirst⟩, hdotted, hsigma⟩
    refine ⟨?_, ?_⟩
    · rw [List.mem_cons, not_or]
      exact ⟨Ne.symm hc, hdotted⟩
    · intro front back heq
      cases front with
      | nil =>
          obtain ⟨rfl, rfl⟩ := List.cons.inj heq
          exact hfirst rfl
      | cons b front =>
          obtain ⟨rfl, rfl⟩ := List.cons.inj heq
          rw [List.reverse_cons, List.append_assoc]
          exact hsigma front back rfl

theorem map_lowerChar_lowerFrom_iff {before text : List Char} :
    (lowerFrom before text).map lowerChar = text.map lowerChar ↔ LowersEvenly before text := by
  induction text generalizing before with
  | nil => simp [lowerFrom, LowersEvenly]
  | cons c text ih =>
      rw [lowerFrom_cons, map_lowerChar_append_iff (lowerPiece_ne_nil before c text)
        (length_le_length_lowerFrom (c :: before) text), ih, matches_lowerPiece_iff,
        lowersEvenly_cons]

end Text

/-! ## Reading everything -/

namespace Run

variable {τ ω α : Type} {ruler : Ruler τ} {x : Run τ ω (Outcome α)} {w : World τ ω} {ts : List τ}

/-- The computation succeeds and leaves nothing unread. -/
def ReadsAll (x : Run τ ω (Outcome α)) (w : World τ ω) : Prop :=
  ∃ v consumed w', x.run w = (.ok (.success v consumed), w') ∧ w'.state.isAtEnd = true

theorem Takes.readsAll_iff {v : α} {consumed : Bool}
    (h : x.Takes ruler w ts (.success v consumed)) :
    x.ReadsAll w ↔
      ts = w.state.place.rest ∧ (ruler.positionAfter w.state.position ts).isSome = true := by
  cases h with
  | @ended w' hrun hpass =>
      have hposition : (ruler.positionAfter w.state.position ts).isSome = true :=
        Option.isSome_of_eq_some hpass.position
      constructor
      · rintro ⟨v', consumed', u, hrun', hend⟩
        obtain ⟨-, rfl⟩ := Prod.mk.inj (hrun.symm.trans hrun')
        have hrest := hpass.rest
        rw [List.isEmpty_iff.1 hend, List.append_nil] at hrest
        exact ⟨hrest.symm, hposition⟩
      · rintro ⟨rfl, -⟩
        have hend : w'.state.place.rest = [] := hpass.rest_eq_of_append (List.append_nil _).symm
        exact ⟨v, consumed, w', hrun, List.isEmpty_iff.2 hend⟩
  | overflow hrun hnone =>
      refine iff_of_false ?_ ?_
      · rintro ⟨v', consumed', u, hrun', -⟩
        rw [hrun] at hrun'
        cases hrun'
      · rintro ⟨-, hsome⟩
        rw [hnone] at hsome
        cases hsome

theorem Takes.not_readsAll {consumed : Bool} (h : x.Takes ruler w ts (.failure consumed)) :
    ¬ x.ReadsAll w := by
  rintro ⟨v, consumed', u, hrun', -⟩
  cases h with
  | ended hrun =>
      rw [hrun] at hrun'
      cases hrun'
  | overflow hrun =>
      rw [hrun] at hrun'
      cases hrun'

end Run

namespace Parser

variable {ω : Type} {ρ : Type → Type}

theorem passing_caseTests_cons (c d : Char) (text written : List Char) :
    passing (caseTests (c :: text)) (d :: written) =
      if Text.lowerChar d = Text.lowerChar c then passing (caseTests text) written + 1 else 0 := by
  simp [caseTests, passing]

/-- All tests are passed and no character is left exactly if the characters match one by one. -/
theorem passing_caseTests_iff {text written : List Char} :
    passing (caseTests text) written = text.length ∧ written.length = text.length ↔
      written.map Text.lowerChar = text.map Text.lowerChar := by
  induction text generalizing written with
  | nil => simp [caseTests, passing]
  | cons c text ih =>
      cases written with
      | nil => simp
      | cons d written =>
          rw [passing_caseTests_cons, List.map_cons, List.map_cons, List.cons.injEq, ← ih]
          by_cases hform : Text.lowerChar d = Text.lowerChar c
          · simp [hform]
          · simp [hform]

/-- A text in any case reads everything exactly if what there is matches the text character by
    character and has a position behind it. -/
theorem readsAll_anyCase_iff (ruler : Ruler Char) (call : Calls Char ρ ω) (copy : Nat)
    (text : String) (w : World Char ω) :
    ((anyCase text).eval ruler call copy).ReadsAll w ↔
      w.state.place.rest.map Text.lowerChar = text.toList.map Text.lowerChar ∧
      (ruler.positionAfter w.state.position w.state.place.rest).isSome = true := by
  obtain ⟨k, hk⟩ : ∃ k, passing (caseTests text.toList) w.state.place.rest = k := ⟨_, rfl⟩
  have htakes := takes_anyCase ruler call copy text hk
  have hle := (passing_le (caseTests text.toList) w.state.place.rest).2
  rw [← passing_caseTests_iff]
  rw [hk] at hle ⊢
  rw [length_caseTests] at htakes
  by_cases hall : k = text.toList.length
  · rw [if_pos hall] at htakes
    rw [htakes.readsAll_iff]
    constructor
    · rintro ⟨htake, hposition⟩
      have hlength := congrArg List.length htake
      rw [List.length_take] at hlength
      rw [htake] at hposition
      exact ⟨⟨hall, by omega⟩, hposition⟩
    · rintro ⟨⟨-, hlength⟩, hposition⟩
      rw [List.take_of_length_le (by omega)]
      exact ⟨rfl, hposition⟩
  · rw [if_neg hall] at htakes
    exact iff_of_false htakes.not_readsAll fun h => hall h.1.1

/-- **What becomes of the spellings that a text in any case names.** It says that it expects the
    lower-case and the upper-case form of the text. On an input that is the lower-case form, the
    parser succeeds and reads all of it exactly if the text has no dotted capital I and no capital
    sigma at the end of a word; on the upper-case form, exactly if the upper-case form of each
    character is a single one that has the same lower-case form as the character. In both cases
    there has to be a position behind the input. -/
theorem anyCase_reads_spellings_iff (ruler : Ruler Char) (call : Calls Char ρ ω) (copy : Nat)
    (text : String) (start : Position) (events : List (Event ω)) (cells : Cells) :
    let lower := Text.lowerText text.toList
    let upper := Text.upperText text.toList
    let reads := fun spelling => ((anyCase text).eval ruler call copy).ReadsAll
      ⟨State.initial start spelling, events, cells⟩
    (anyCase text : Parser Char ρ ω String).expected = [.tokens lower, .tokens upper] ∧
    (reads lower ↔ Text.LowersEvenly [] text.toList ∧
      (ruler.positionAfter start lower).isSome = true) ∧
    (reads upper ↔ (∀ c ∈ text.toList, Text.Matches (Text.upperChar c) c) ∧
      (ruler.positionAfter start upper).isSome = true) := by
  intro lower upper reads
  refine ⟨rfl, ?_, ?_⟩
  · exact (readsAll_anyCase_iff ruler call copy text _).trans
      (and_congr_left' Text.map_lowerChar_lowerFrom_iff)
  · exact (readsAll_anyCase_iff ruler call copy text _).trans
      (and_congr_left' Text.map_lowerChar_upperText_iff)

/-- A text in any case does not always read the spellings that it expects: the sharp s expects a
    double capital S, and fails on it. -/
theorem anyCase_refuses_capital_sharp_s :
    let p : Parser Char (fun _ => Empty) Unit String := anyCase "ß"
    let ruler := Ruler.ofString (TextLayout.next {})
    .tokens ['S', 'S'] ∈ p.expected ∧
    ∀ depth, ¬ (p.eval ruler (calls ruler (fun _ => Empty.elim) depth) 0).ReadsAll
      ⟨State.initial Position.first ['S', 'S'], [], .empty⟩ := by
  intro p ruler
  refine ⟨List.mem_cons_of_mem _ (List.mem_singleton.2 rfl), fun depth => ?_⟩
  rintro ⟨v, consumed, w', hrun, -⟩
  have hfailed : (p.eval ruler (calls ruler (fun _ => Empty.elim) depth) 0).run
      ⟨State.initial Position.first ['S', 'S'], [], .empty⟩ = (.ok (.failure false), _) := rfl
  rw [hfailed] at hrun
  cases hrun

end Parser

end CommittedChoice
