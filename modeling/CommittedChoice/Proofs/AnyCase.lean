import CommittedChoice.Proofs.MaximalMunch

set_option autoImplicit false

/-! # Texts in any case

A text in any case is spelled character by character: each character of the input has to have the
lower-case form of the character that the text has at this place. So the parser goes as far as the
input matches (`passing`), and it succeeds exactly if this is the whole text. What it gives is the
input as it is written there, not the text that was asked for.

The loop is that of any row of tests, and so `Run.takes_spelled` is stated for tests of tokens; it
is by induction on the tests. The main statement is `Parser.anyCase_takes_longest_match`. -/

namespace CommittedChoice

variable {τ ω α : Type} {ρ : Type → Type} {ruler : Ruler τ}

/-! ## How far tests pass -/

/-- How many tokens pass their tests until one does not, or there are no more tokens or tests. -/
def passing : List (τ → Bool) → List τ → Nat
  | accepts :: tests, t :: ts => if accepts t then passing tests ts + 1 else 0
  | _, _ => 0

/-- There is a test for the token at an index, and the token passes it. -/
def PassesAt (tests : List (τ → Bool)) (ts : List τ) (i : Nat) : Prop :=
  ∃ accepts t, tests[i]? = some accepts ∧ ts[i]? = some t ∧ accepts t = true

section Passing

variable {accepts : τ → Bool} {tests : List (τ → Bool)} {t : τ} {ts : List τ}

theorem passing_cons_of_accepted (h : accepts t = true) :
    passing (accepts :: tests) (t :: ts) = passing tests ts + 1 := by
  rw [passing, if_pos h]

theorem passing_cons_of_halts (h : Halts accepts ts) : passing (accepts :: tests) ts = 0 := by
  cases ts with
  | nil => rfl
  | cons t ts => rw [passing, h t rfl, if_neg Bool.false_ne_true]

@[simp] theorem passesAt_zero :
    PassesAt (accepts :: tests) (t :: ts) 0 ↔ accepts t = true := by
  simp [PassesAt]

@[simp] theorem passesAt_succ {i : Nat} :
    PassesAt (accepts :: tests) (t :: ts) (i + 1) ↔ PassesAt tests ts i := by
  simp [PassesAt]

theorem passing_le (tests : List (τ → Bool)) (ts : List τ) :
    passing tests ts ≤ tests.length ∧ passing tests ts ≤ ts.length := by
  fun_induction passing tests ts with
  | case1 accepts tests t ts haccepts ih =>
      exact ⟨Nat.succ_le_succ ih.1, Nat.succ_le_succ ih.2⟩
  | case2 accepts tests t ts hrefused => exact ⟨Nat.zero_le _, Nat.zero_le _⟩
  | case3 tests ts hend => exact ⟨Nat.zero_le _, Nat.zero_le _⟩

theorem passesAt_of_lt_passing {i : Nat} (h : i < passing tests ts) : PassesAt tests ts i := by
  fun_induction passing tests ts generalizing i with
  | case1 accepts tests t ts haccepts ih =>
      cases i with
      | zero => exact passesAt_zero.2 haccepts
      | succ i => exact passesAt_succ.2 (ih (Nat.lt_of_succ_lt_succ h))
  | case2 accepts tests t ts hrefused => exact absurd h (Nat.not_lt_zero _)
  | case3 tests ts hend => exact absurd h (Nat.not_lt_zero _)

/-- The tests go no further. -/
theorem not_passesAt_passing (tests : List (τ → Bool)) (ts : List τ) :
    ¬ PassesAt tests ts (passing tests ts) := by
  fun_induction passing tests ts with
  | case1 accepts tests t ts haccepts ih => exact fun h => ih (passesAt_succ.1 h)
  | case2 accepts tests t ts hrefused => exact fun h => hrefused (passesAt_zero.1 h)
  | case3 tests ts hend =>
      rintro ⟨accepts, t, htest, htoken, -⟩
      cases tests with
      | nil => cases htest
      | cons accepts' tests =>
          cases ts with
          | nil => cases htoken
          | cons t' ts => exact hend _ _ _ _ rfl rfl

end Passing

/-! ## Spelling -/

namespace Run

variable {expected : List (Expected τ)} {earlier : Bool} {accepts : τ → Bool}
  {tests : List (τ → Bool)} {w : World τ ω} {t : τ} {ts us : List τ} {outcome : Outcome (List τ)}

theorem takes_spelled_of_halts (hhalts : Halts accepts w.state.place.rest) :
    (spelled ruler expected earlier (accepts :: tests)).Takes ruler w [] (.failure earlier) :=
  takes_next_of_halts hhalts expected earlier

theorem takes_spelled_of_accepted (hrest : w.state.place.rest = t :: ts)
    (haccepts : accepts t = true)
    (htail : ∀ w' : World τ ω, w'.state.place.rest = ts →
      (spelled ruler expected true tests).Takes ruler w' us outcome) :
    (spelled ruler expected earlier (accepts :: tests)).Takes ruler w (t :: us)
      (outcome.map (t :: ·)) := by
  refine takes_next_of_accepted hrest haccepts expected earlier (takes_advance hrest ?_)
  intro w' hpass
  exact (htail w' (hpass.rest_eq_of_append hrest)).map (t :: ·)

/-- Tests are passed as far as they are, and they succeed if this is as far as they go. -/
theorem takes_spelled (ruler : Ruler τ) (expected : List (Expected τ)) (tests : List (τ → Bool))
    (earlier : Bool) (hrest : w.state.place.rest = ts) :
    let k := passing tests ts
    (spelled ruler expected earlier tests).Takes ruler w (ts.take k)
      (if k = tests.length then .success (ts.take k) (earlier || decide (0 < k))
        else .failure (earlier || decide (0 < k))) := by
  intro k
  induction tests generalizing earlier w ts with
  | nil =>
      have hdone : (spelled ruler expected earlier []).Takes ruler w [] (.success [] earlier) :=
        takes_success [] earlier
      simpa [k, passing] using hdone
  | cons accepts tests ih =>
      by_cases hhalts : Halts accepts ts
      · have hk : k = 0 := passing_cons_of_halts hhalts
        have hfailed : (spelled ruler expected earlier (accepts :: tests)).Takes ruler w []
            (.failure earlier) := takes_spelled_of_halts (hrest ▸ hhalts)
        simpa [hk] using hfailed
      · obtain ⟨t, us, rfl, haccepts⟩ := exists_cons_of_not_halts hhalts
        have hk : k = passing tests us + 1 := passing_cons_of_accepted haccepts
        have htaken : (spelled ruler expected earlier (accepts :: tests)).Takes ruler w _ _ :=
          takes_spelled_of_accepted hrest haccepts fun w' hrest' => ih true hrest'
        rw [apply_ite (Outcome.map (t :: ·))] at htaken
        simpa [hk, Outcome.map] using htaken

/-- Computations that take the same run with the same outcome give the same answer. -/
theorem Takes.answer_eq {x y : Run τ ω (Outcome α)} {outcome : Outcome α}
    (hx : x.Takes ruler w ts outcome) (hy : y.Takes ruler w ts outcome) :
    (x.run w).1 = (y.run w).1 := by
  cases hx with
  | ended hrun hpass =>
      cases hy with
      | ended hrun' => rw [hrun, hrun']
      | overflow hrun' hnone => cases hpass.position.symm.trans hnone
  | overflow hrun hnone =>
      cases hy with
      | ended hrun' hpass => cases hpass.position.symm.trans hnone
      | overflow hrun' => rw [hrun, hrun']

end Run

/-! ## Texts in any case -/

/-- The texts have characters at an index, and these have the same lower-case form. -/
def Text.MatchesAt (text written : List Char) (i : Nat) : Prop :=
  ∃ c d, text[i]? = some c ∧ written[i]? = some d ∧ lowerChar d = lowerChar c

namespace Parser

/-- The tests of the characters of a text. -/
def caseTests (text : List Char) : List (Char → Bool) :=
  text.map fun c d => Text.lowerChar d == Text.lowerChar c

@[simp] theorem length_caseTests (text : List Char) : (caseTests text).length = text.length :=
  List.length_map _

/-- The tests are made from the lower-case forms. -/
theorem caseTests_eq_map_forms (text : List Char) :
    caseTests text = (text.map Text.lowerChar).map fun form d => Text.lowerChar d == form := by
  rw [caseTests, List.map_map]
  rfl

theorem passesAt_caseTests_iff {text written : List Char} {i : Nat} :
    PassesAt (caseTests text) written i ↔ Text.MatchesAt text written i := by
  rw [PassesAt, Text.MatchesAt, caseTests, List.getElem?_map]
  cases text[i]? <;> simp

theorem takes_anyCase (ruler : Ruler Char) (call : Calls Char ρ ω) (copy : Nat) (text : String)
    {w : World Char ω} {k : Nat}
    (hk : passing (caseTests text.toList) w.state.place.rest = k) :
    ((anyCase text).eval ruler call copy).Takes ruler w (w.state.place.rest.take k)
      (if k = (caseTests text.toList).length then
          .success (String.ofList (w.state.place.rest.take k)) (decide (0 < k))
        else .failure (decide (0 < k))) := by
  subst hk
  have hspelled := (Run.takes_spelled (w := w) ruler
    [.tokens (Text.lowerText text.toList), .tokens (Text.upperText text.toList)]
    (caseTests text.toList) false rfl).map String.ofList
  rw [apply_ite (Outcome.map String.ofList)] at hspelled
  exact hspelled

/-- **A text in any case takes the longest match.** Either each character of the text matches the
    character of the input at its place, and then the parser succeeds; its value is what the input
    has in place of the text, as it is written there, the parse goes on right behind it, and it has
    consumed exactly if the text is not empty. Or there is a first place of the text that the input
    does not match, because it has another character or none, and then the parser fails there; it
    has passed what is before this place, and has consumed exactly if there is something. It stops
    exactly where there is no position behind what it would pass.

    Of a text only the lower-case forms of its characters matter: texts that have the same give the
    same answers. -/
theorem anyCase_takes_longest_match (ruler : Ruler Char) (call : Calls Char ρ ω) (copy : Nat)
    (text : String) (w : World Char ω) :
    (let written := w.state.place.rest
      let n := text.toList.length
      ((n ≤ written.length ∧ ∀ i < n, Text.MatchesAt text.toList written i) ∧
        ((anyCase text).eval ruler call copy).Takes ruler w (written.take n)
          (.success (String.ofList (written.take n)) (decide (0 < n)))) ∨
      ∃ k < n, k ≤ written.length ∧ (∀ i < k, Text.MatchesAt text.toList written i) ∧
        ¬ Text.MatchesAt text.toList written k ∧
        ((anyCase text).eval ruler call copy).Takes ruler w (written.take k)
          (.failure (decide (0 < k)))) ∧
    ∀ text' : String, text'.toList.map Text.lowerChar = text.toList.map Text.lowerChar →
      (((anyCase text').eval ruler call copy).run w).1 =
        (((anyCase text).eval ruler call copy).run w).1 := by
  refine ⟨?_, fun text' hforms => ?_⟩
  · intro written n
    obtain ⟨k, hk⟩ : ∃ k, passing (caseTests text.toList) written = k := ⟨_, rfl⟩
    have htakes := takes_anyCase ruler call copy text hk
    have hle : k ≤ n ∧ k ≤ written.length := by
      rw [← hk]
      simpa using passing_le (caseTests text.toList) written
    have hbefore : ∀ i < k, Text.MatchesAt text.toList written i := fun i hi =>
      passesAt_caseTests_iff.1 (passesAt_of_lt_passing (hk ▸ hi))
    have hbehind : ¬ Text.MatchesAt text.toList written k := fun h =>
      not_passesAt_passing _ _ (passesAt_caseTests_iff.2 (hk ▸ h))
    rw [length_caseTests] at htakes
    by_cases hall : k = n
    · rw [if_pos hall] at htakes
      rw [← hall]
      exact .inl ⟨⟨hle.2, hbefore⟩, htakes⟩
    · rw [if_neg hall] at htakes
      exact .inr ⟨k, Nat.lt_of_le_of_ne hle.1 hall, hle.2, hbefore, hbehind, htakes⟩
  · have htests : caseTests text'.toList = caseTests text.toList := by
      rw [caseTests_eq_map_forms, hforms, ← caseTests_eq_map_forms]
    have htakes := takes_anyCase (w := w) ruler call copy text' rfl
    rw [htests] at htakes
    exact htakes.answer_eq (takes_anyCase ruler call copy text rfl)

/-- A text in any case does not always take a match: a match at the last column is not taken,
    because there is no column behind it. -/
theorem anyCase_untaken_at_last_column :
    let p : Parser Char (fun _ => Empty) Unit String := anyCase "a"
    let ruler := Ruler.ofString (TextLayout.next {})
    let w : World Char Unit := ⟨State.initial ⟨1, Position.maxCoordinate⟩ ['A'], [], .empty⟩
    (∀ i < 1, Text.MatchesAt ['a'] w.state.place.rest i) ∧
    ∀ depth, ¬ ∃ v c w',
      (p.eval ruler (calls ruler (fun _ => Empty.elim) depth) 0).run w =
        (.ok (.success v c), w') := by
  intro p ruler w
  refine ⟨?_, fun depth => ?_⟩
  · intro i hi
    obtain rfl : i = 0 := Nat.lt_one_iff.1 hi
    exact ⟨'a', 'A', rfl, rfl, by decide⟩
  · rintro ⟨v, c, w', hrun⟩
    have hoverflow : (p.eval ruler (calls ruler (fun _ => Empty.elim) depth) 0).run w =
        (.error .overflow, _) := rfl
    rw [hoverflow] at hrun
    cases hrun

end Parser

end CommittedChoice
