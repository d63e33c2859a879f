import CommittedChoice.Proofs.ListEndings
import CommittedChoice.Proofs.MaximalMunch
import CommittedChoice.Proofs.Positions

set_option autoImplicit false

/-! # The language of a list

Let the values of a list be runs of tokens of some class, and its separator a token outside of the
class. Then there is no doubt which values a text is a list of. `Printed` says what such a text
looks like, for each kind of list, and `Parser.lists_recognised_iff_printed` says that a list
followed by the end of the input succeeds on these texts with these values and fails on all others.

The argument has two halves. On the side of the tokens, values that go as far as they can
(`Closes`) are the only ones that can be read off a text (`intercalate_append_inj`). On the side of
the parsers, a run takes as many tokens as there are (`Parser.runRead_of_many1`), so that a row of
runs and its ending go as far as they can (`Run.Row.passes_intercalate`, `Run.Behind.remains`). The
kinds of list differ in the tails they allow, and this is all the difference there is
(`Run.ListRead`). -/

namespace CommittedChoice

variable {τ ω α : Type} {ρ : Type → Type} {ruler : Ruler τ}

/-! ## Printed lists -/

/-- Runs of accepted tokens, none of them empty. -/
def AreRuns (accepts : τ → Bool) (vs : List (List τ)) : Prop :=
  ∀ v ∈ vs, v ≠ [] ∧ ∀ t ∈ v, accepts t = true

/-- What can stand behind a list that goes as far as it can: no accepted token, neither at once nor
    behind a separator. -/
structure Closes (accepts : τ → Bool) (c : τ) (ts : List τ) : Prop where
  halts : Halts accepts ts
  behind {us : List τ} (h : ts = c :: us) : Halts accepts us

/-- The tail of a list is empty, if it may end with a value (`bare`), or a separator, if it may end
    with one (`trailing`). -/
def MayEnd (c : τ) (bare trailing : Bool) (ts : List τ) : Prop :=
  bare = true ∧ ts = [] ∨ trailing = true ∧ ts = [c]

/-- The tokens are a list of the values: nothing for no values, or else the values with separators
    between them and a tail. -/
def Printed (accepts : τ → Bool) (c : τ) (bare trailing : Bool) (vs : List (List τ))
    (ts : List τ) : Prop :=
  AreRuns accepts vs ∧ (vs = [] ∧ ts = [] ∨
    vs ≠ [] ∧ ∃ tail, ts = [c].intercalate vs ++ tail ∧ MayEnd c bare trailing tail)

section Printed

variable {accepts : τ → Bool} {c : τ} {bare trailing : Bool} {v v' ts ts' us : List τ}
  {vs vs' : List (List τ)}

theorem Closes.nil : Closes accepts c [] := ⟨.nil, nofun⟩

theorem Closes.cons (hc : accepts c = false) (h : Halts accepts ts) :
    Closes accepts c (c :: ts) where
  halts := .cons hc ts
  behind := by
    rintro us ⟨⟩
    exact h

theorem MayEnd.closes (hc : accepts c = false) (h : MayEnd c bare trailing ts) :
    Closes accepts c ts := by
  rcases h with ⟨-, rfl⟩ | ⟨-, rfl⟩
  · exact .nil
  · exact .cons hc .nil

theorem AreRuns.tail (h : AreRuns accepts (v :: vs)) : AreRuns accepts vs :=
  fun u hu => h u (List.mem_cons_of_mem v hu)

theorem AreRuns.not_halts (h : AreRuns accepts (v :: vs)) (us : List τ) :
    ¬ Halts accepts (v ++ us) := by
  intro hhalts
  obtain ⟨hv, haccepts⟩ := h v List.mem_cons_self
  obtain ⟨t, v, rfl⟩ := List.exists_cons_of_ne_nil hv
  have hfalse : accepts t = false := hhalts t rfl
  rw [haccepts t List.mem_cons_self] at hfalse
  cases hfalse

/-! The separators between values stand each before a value, or each behind a value with one left
over at the end. -/

theorem intercalate_cons_eq_append_flatMap (c : τ) (v : List τ) (vs : List (List τ)) :
    [c].intercalate (v :: vs) = v ++ vs.flatMap (c :: ·) := by
  induction vs generalizing v with
  | nil => simp
  | cons v' vs ih =>
      rw [List.intercalate_cons_cons, ih]
      simp

theorem intercalate_concat (c : τ) (hvs : vs ≠ []) (v : List τ) :
    [c].intercalate (vs ++ [v]) = [c].intercalate vs ++ c :: v := by
  obtain ⟨v₀, vs, rfl⟩ := List.exists_cons_of_ne_nil hvs
  rw [List.cons_append, intercalate_cons_eq_append_flatMap, intercalate_cons_eq_append_flatMap]
  simp

theorem flatMap_eq_intercalate (c : τ) (hvs : vs ≠ []) :
    vs.flatMap (· ++ [c]) = [c].intercalate vs ++ [c] := by
  induction vs with
  | nil => exact absurd rfl hvs
  | cons v vs ih =>
      by_cases hvs : vs = []
      · subst hvs
        simp
      · rw [List.flatMap_cons, ih hvs, List.intercalate_cons_of_ne_nil hvs]
        simp

/-! ## One way to print a list -/

/-- There is no value behind the separator. -/
theorem Closes.ne_cons_append (h : Closes accepts c ts) (hvs : AreRuns accepts (v :: vs))
    (us : List τ) : ts ≠ c :: (v ++ us) :=
  fun hts => hvs.not_halts us (h.behind hts)

theorem Closes.halts_append (hc : accepts c = false) (h : Closes accepts c ts)
    (vs : List (List τ)) : Halts accepts (vs.flatMap (c :: ·) ++ ts) := by
  cases vs with
  | nil => exact h.halts
  | cons v vs => exact .cons hc _

section Unique

variable (hc : accepts c = false) (hts : Closes accepts c ts) (hts' : Closes accepts c ts')
include hc hts hts'

theorem append_flatMap_inj_head (hvs : AreRuns accepts (v :: vs))
    (hvs' : AreRuns accepts (v' :: vs'))
    (h : v ++ (vs.flatMap (c :: ·) ++ ts) = v' ++ (vs'.flatMap (c :: ·) ++ ts')) :
    v = v' ∧ vs.flatMap (c :: ·) ++ ts = vs'.flatMap (c :: ·) ++ ts' :=
  append_inj_of_halts (hvs v List.mem_cons_self).2 (hvs' v' List.mem_cons_self).2
    (hts.halts_append hc vs) (hts'.halts_append hc vs') h

/-- Values with separators before them can be read off the tokens one by one. -/
theorem append_flatMap_inj (hvs : AreRuns accepts (v :: vs)) (hvs' : AreRuns accepts (v' :: vs'))
    (h : v ++ (vs.flatMap (c :: ·) ++ ts) = v' ++ (vs'.flatMap (c :: ·) ++ ts')) :
    v :: vs = v' :: vs' ∧ ts = ts' := by
  induction vs generalizing v v' vs' with
  | nil =>
      obtain ⟨rfl, hrest⟩ := append_flatMap_inj_head hc hts hts' hvs hvs' h
      cases vs' with
      | nil => exact ⟨rfl, hrest⟩
      | cons b vs' =>
          -- the second list goes on where the first one has come to its end
          rw [List.flatMap_nil, List.nil_append, List.flatMap_cons, List.cons_append,
            List.cons_append, List.append_assoc] at hrest
          exact absurd hrest (hts.ne_cons_append hvs'.tail _)
  | cons b vs ih =>
      obtain ⟨rfl, hrest⟩ := append_flatMap_inj_head hc hts hts' hvs hvs' h
      rw [List.flatMap_cons, List.cons_append, List.cons_append, List.append_assoc] at hrest
      cases vs' with
      | nil => exact absurd hrest.symm (hts'.ne_cons_append hvs.tail _)
      | cons b' vs' =>
          rw [List.flatMap_cons, List.cons_append, List.cons_append, List.append_assoc] at hrest
          obtain ⟨hvalues, htail⟩ := ih hvs.tail hvs'.tail (List.cons.inj hrest).2
          exact ⟨by rw [hvalues], htail⟩

/-- Values with separators between them, if they go as far as they can, are the only ones. -/
theorem intercalate_append_inj (hvs : AreRuns accepts vs) (hvs' : AreRuns accepts vs')
    (hne : vs ≠ []) (hne' : vs' ≠ [])
    (h : [c].intercalate vs ++ ts = [c].intercalate vs' ++ ts') : vs = vs' ∧ ts = ts' := by
  obtain ⟨v, vs, rfl⟩ := List.exists_cons_of_ne_nil hne
  obtain ⟨v', vs', rfl⟩ := List.exists_cons_of_ne_nil hne'
  simp only [intercalate_cons_eq_append_flatMap, List.append_assoc] at h
  exact append_flatMap_inj hc hts hts' hvs hvs' h

end Unique

/-- Where there is no value, only the empty list is printed. -/
theorem printed_iff_of_halts (h : Halts accepts ts) :
    Printed accepts c bare trailing vs ts ↔ vs = [] ∧ ts = [] := by
  constructor
  · rintro ⟨hvs, hnil | ⟨hne, tail, rfl, -⟩⟩
    · exact hnil
    · obtain ⟨v, vs, rfl⟩ := List.exists_cons_of_ne_nil hne
      rw [intercalate_cons_eq_append_flatMap, List.append_assoc] at h
      exact absurd h (hvs.not_halts _)
  · rintro ⟨rfl, rfl⟩
    exact ⟨nofun, .inl ⟨rfl, rfl⟩⟩

/-- Behind as many values as there are, the tail decides. -/
theorem printed_append_iff (hc : accepts c = false) (hvs : AreRuns accepts vs) (hne : vs ≠ [])
    (hts : Closes accepts c ts) :
    Printed accepts c bare trailing vs' ([c].intercalate vs ++ ts) ↔
      vs' = vs ∧ MayEnd c bare trailing ts := by
  constructor
  · rintro ⟨hvs', ⟨-, hnil⟩ | ⟨hne', tail, heq, hend⟩⟩
    · obtain ⟨v, vs, rfl⟩ := List.exists_cons_of_ne_nil hne
      rw [intercalate_cons_eq_append_flatMap, List.append_assoc] at hnil
      exact absurd (List.append_eq_nil_iff.1 hnil).1 (hvs v List.mem_cons_self).1
    · obtain ⟨rfl, rfl⟩ := intercalate_append_inj hc hts (hend.closes hc) hvs hvs' hne hne' heq
      exact ⟨rfl, hend⟩
  · rintro ⟨rfl, hend⟩
    exact ⟨hvs, .inr ⟨hne, ts, rfl, hend⟩⟩

theorem Printed.unique (hc : accepts c = false) (h : Printed accepts c bare trailing vs ts)
    (h' : Printed accepts c bare trailing vs' ts) : vs' = vs := by
  obtain ⟨hvs, ⟨rfl, rfl⟩ | ⟨hne, tail, rfl, hend⟩⟩ := h
  · exact ((printed_iff_of_halts .nil).1 h').1
  · exact ((printed_append_iff hc hvs hne (hend.closes hc)).1 h').1

/-! The three kinds of list, each with its own way to print. -/

theorem printed_bare_iff :
    Printed accepts c true false vs ts ↔ AreRuns accepts vs ∧ ts = [c].intercalate vs := by
  by_cases hvs : vs = []
  · subst hvs
    simp [Printed]
  · simp [Printed, MayEnd, hvs]

theorem printed_optional_iff :
    Printed accepts c true true vs ts ↔ AreRuns accepts vs ∧
      (ts = [c].intercalate vs ∨ vs ≠ [] ∧ ts = [c].intercalate vs ++ [c]) := by
  by_cases hvs : vs = []
  · subst hvs
    simp [Printed]
  · simp [Printed, MayEnd, hvs, and_or_left, exists_or]

theorem printed_trailing_iff :
    Printed accepts c false true vs ts ↔ AreRuns accepts vs ∧ ts = vs.flatMap (· ++ [c]) := by
  by_cases hvs : vs = []
  · subst hvs
    simp [Printed]
  · simp [Printed, MayEnd, hvs, flatMap_eq_intercalate c hvs]

end Printed

/-! ## Reading runs of tokens -/

namespace Run

/-- The ends of an attempt to read one token of a class. -/
inductive TokenRead (ruler : Ruler τ) (accepts : τ → Bool) (w : World τ ω) :
    Except Stop (Outcome τ) → World τ ω → Prop where
  | taken {t : τ} {w' : World τ ω} (haccepts : accepts t = true)
      (hpass : w.state.place.Passes ruler [t] w'.state.place) :
      TokenRead ruler accepts w (.ok (.success t true)) w'
  | refused {w' : World τ ω} (hhalts : Halts accepts w.state.place.rest)
      (hplace : w'.state.place = w.state.place) :
      TokenRead ruler accepts w (.ok (.failure false)) w'
  | overflow {w' : World τ ω} : TokenRead ruler accepts w (.error .overflow) w'

/-- The ends of an attempt to read as many tokens of a class as there are, and one at least. -/
inductive RunRead (ruler : Ruler τ) (accepts : τ → Bool) (w : World τ ω) :
    Except Stop (Outcome (List τ)) → World τ ω → Prop where
  | taken {v : List τ} {w' : World τ ω} (hv : v ≠ []) (haccepts : ∀ t ∈ v, accepts t = true)
      (hpass : w.state.place.Passes ruler v w'.state.place)
      (hhalts : Halts accepts w'.state.place.rest) :
      RunRead ruler accepts w (.ok (.success v true)) w'
  | refused {w' : World τ ω} (hhalts : Halts accepts w.state.place.rest)
      (hplace : w'.state.place = w.state.place) :
      RunRead ruler accepts w (.ok (.failure false)) w'
  | overflow {w' : World τ ω} : RunRead ruler accepts w (.error .overflow) w'

theorem tokenRead_of_satisfy {accepts : τ → Bool} {expected : List (Expected τ)}
    {w w' : World τ ω} {r : Except Stop (Outcome τ)}
    (hrun : (satisfy ruler accepts expected).run w = (r, w')) : TokenRead ruler accepts w r w' := by
  by_cases hhalts : Halts accepts w.state.place.rest
  · obtain ⟨u, hrefused, hplace, -⟩ := (takes_satisfy_of_halts ruler hhalts expected).exists_of_nil
    cases hrun.symm.trans hrefused
    exact .refused hhalts hplace
  · obtain ⟨t, ts, hrest, haccepts⟩ := exists_cons_of_not_halts hhalts
    cases takes_satisfy_of_accepted ruler hrest haccepts expected with
    | ended htaken hpass =>
        cases hrun.symm.trans htaken
        exact .taken haccepts hpass
    | overflow hstopped =>
        cases hrun.symm.trans hstopped
        exact .overflow

end Run

/-- A repeated token reads as many tokens of its class as there are. -/
theorem Parser.runRead_of_many1 {call : Calls τ ρ ω} {copy : Nat} {accepts : τ → Bool}
    {expected : List (Expected τ)} {name : String} {w w' : World τ ω}
    {r : Except Stop (Outcome (List τ))}
    (hrun : ((many1 name (satisfy accepts expected)).eval ruler call copy).run w = (r, w')) :
    Run.RunRead ruler accepts w r w' := by
  obtain ⟨v, hv⟩ : ∃ v, w.state.place.rest.takeWhile accepts = v := ⟨_, rfl⟩
  have haccepts : ∀ t ∈ v, accepts t = true := hv ▸ List.all_eq_true.1 List.all_takeWhile
  have hhalts : Halts accepts (w.state.place.rest.dropWhile accepts) := .dropWhile _ _
  have htakes : ((many1 name (satisfy accepts expected)).eval ruler call copy).Takes ruler w v _ :=
    takes_many1 hv expected name
  cases htakes with
  | overflow hstopped =>
      cases hrun.symm.trans hstopped
      exact .overflow
  | ended htaken hpass =>
      cases hrun.symm.trans htaken
      have hbehind : w'.state.place.rest = w.state.place.rest.dropWhile accepts := by
        refine hpass.rest_eq_of_append ?_
        rw [← hv, List.takeWhile_append_dropWhile]
      rw [← hbehind] at hhalts
      by_cases hempty : v = []
      · subst hempty
        have hplace : w'.state.place = w.state.place := hpass.eq_of_nil
        exact .refused (hplace ▸ hhalts) hplace
      · rw [if_neg (by simpa using hempty)]
        exact .taken hempty haccepts hpass hhalts

/-! ## Reading lists of runs -/

namespace Run

/-- What remains behind a row of runs, and what remains behind its ending. -/
inductive Remains (accepts : τ → Bool) (c : τ) : List τ → Ending → List τ → Prop where
  | done {ts : List τ} (h : ts.head? ≠ some c) : Remains accepts c ts .done ts
  | dangling {ts : List τ} (h : Halts accepts ts) : Remains accepts c (c :: ts) .dangling ts
  | overflow {ts ts' : List τ} : Remains accepts c ts (.stopped .overflow) ts'

/-- The ends of an attempt to read a list of runs. If there are values, they go as far as they can,
    and the list succeeds and comes to the end of the tokens exactly if the tail is one with which
    it may end. -/
inductive ListRead (accepts : τ → Bool) (c : τ) (bare trailing : Bool) (w : World τ ω) :
    Except Stop (Outcome (List (List τ))) → World τ ω → Prop where
  | missing {w' : World τ ω} (hhalts : Halts accepts w.state.place.rest)
      (hplace : w'.state.place = w.state.place) :
      ListRead accepts c bare trailing w (.ok (.failure false)) w'
  | listed {vs : List (List τ)} {tail : List τ} {allowed : Bool} {w' : World τ ω}
      (hruns : AreRuns accepts vs) (hvs : vs ≠ [])
      (hrest : w.state.place.rest = [c].intercalate vs ++ tail) (hcloses : Closes accepts c tail)
      (hwhole : allowed = true ∧ w'.state.place.rest = [] ↔ MayEnd c bare trailing tail) :
      ListRead accepts c bare trailing w (.ok (listed allowed vs)) w'
  | overflow {w' : World τ ω} : ListRead accepts c bare trailing w (.error .overflow) w'

section Lists

variable [DecidableEq τ] {accepts : τ → Bool} {c : τ} {x : Run τ ω (Outcome (List τ))}
  {y : Run τ ω (Outcome τ)} {w u u' : World τ ω}
  (hx : ∀ ⦃w r w'⦄, x.run w = (r, w') → RunRead ruler accepts w r w')
  (hy : ∀ ⦃w r w'⦄, y.run w = (r, w') → TokenRead ruler (fun t => t = c) w r w')
include hx hy

/-- A row reads the separated runs, each as long as it can be. -/
theorem Row.passes_intercalate {vs : List (List τ)} {b : Bool} (h : Row x y w vs b u) :
    AreRuns accepts vs ∧ vs ≠ [] ∧
      w.state.place.Passes ruler ([c].intercalate vs) u.state.place ∧
      Halts accepts u.state.place.rest := by
  induction h with
  | first hvalue =>
      cases hx hvalue with
      | taken hv haccepts hpass hhalts =>
          exact ⟨List.forall_mem_singleton.2 ⟨hv, haccepts⟩, List.cons_ne_nil _ _,
            by simpa using hpass, hhalts⟩
  | @next vs _ _ _ u u₁ u₂ t v _ hseparator hvalue _ ih =>
      obtain ⟨hruns, hvs, hrow, -⟩ := ih
      cases hy hseparator with
      | taken ht hpass₁ =>
          obtain rfl : t = c := of_decide_eq_true ht
          cases hx hvalue with
          | taken hv haccepts hpass₂ hhalts =>
              have hpass := hrow.trans (hpass₁.trans hpass₂)
              rw [List.singleton_append, ← intercalate_concat t hvs] at hpass
              refine ⟨?_, by simp, hpass, hhalts⟩
              exact List.forall_mem_append.2 ⟨hruns, List.forall_mem_singleton.2 ⟨hv, haccepts⟩⟩

/-- Runs and separators are never left incomplete, and they always consume. -/
theorem Behind.remains {e : Ending} (h : Behind x y u e u') :
    Remains accepts c u.state.place.rest e u'.state.place.rest := by
  cases h with
  | absent hseparator =>
      cases hy hseparator with
      | refused hhalts hplace =>
          rw [hplace]
          exact .done fun hhead => of_decide_eq_false (hhalts c hhead) rfl
  | idle hseparator hvalue => cases hy hseparator
  | @dangling _ _ t hseparator hvalue =>
      cases hy hseparator with
      | taken ht hpass =>
          obtain rfl : t = c := of_decide_eq_true ht
          cases hx hvalue with
          | refused hhalts hplace =>
              rw [hpass.rest, hplace]
              exact .dangling hhalts
  | brokenSeparator hseparator => cases hy hseparator
  | brokenValue hseparator hvalue => cases hx hvalue
  | stoppedSeparator hseparator =>
      cases hy hseparator with
      | overflow => exact .overflow
  | stoppedValue hseparator hvalue =>
      cases hx hvalue with
      | overflow => exact .overflow
  | looped hseparator hvalue => cases hy hseparator

/-- Every kind of list reads its runs in this way. -/
theorem exists_listRead {bare trailing : Bool} {z : Run τ ω (Outcome (List (List τ)))}
    (hxmoves : x.Moves ruler false) (hymoves : y.Moves ruler false) (hc : accepts c = false)
    (hz : ReadsLists x y bare trailing z) (w : World τ ω) :
    ∃ r w', z.run w = (r, w') ∧ ListRead accepts c bare trailing w r w' := by
  rcases hfirst : x.run w with ⟨r, w₁⟩
  cases hx hfirst with
  | taken =>
      obtain ⟨vs, b, u, e, u', hrow, hend⟩ := (Row.first hfirst).exists_behind hxmoves hymoves
      obtain ⟨fault, w', hrun, hlast⟩ := hz.of_row hrow hend
      obtain ⟨hruns, hvs, hpass, hhalts⟩ := hrow.passes_intercalate hx hy
      refine ⟨_, w', hrun, ?_⟩
      have hrest := hpass.rest
      have hremains := hend.remains hx hy
      rw [← hlast.place] at hremains
      generalize u.state.place.rest = tail at hrest hremains hhalts
      cases hremains with
      | done hhead =>
          refine .listed hruns hvs hrest ⟨hhalts, ?_⟩ ?_
          · intro us htail
            exact absurd (congrArg List.head? htail) hhead
          · constructor
            · exact .inl
            · rintro (hbare | ⟨-, htail⟩)
              · exact hbare
              · exact absurd (congrArg List.head? htail) hhead
      | dangling hbehind =>
          refine .listed hruns hvs hrest (.cons hc hbehind) ?_
          simp [MayEnd]
      | overflow => exact .overflow
  | refused hhalts hplace =>
      obtain ⟨w', hrun, hlast⟩ := hz.of_failure hfirst
      exact ⟨_, w', hrun, .missing hhalts (hlast.place.trans hplace)⟩
  | overflow => exact ⟨_, _, hz.of_error hfirst, .overflow⟩

end Lists

end Run

/-! ## The whole input -/

namespace Run

/-- From a world, the computation succeeds with what is right and fails if there is no such thing.
    Or else it stops, because there is no position behind some of the tokens that are left. -/
def Recognises (ruler : Ruler τ) (x : Run τ ω (Outcome α)) (w : World τ ω) (right : α → Prop) :
    Prop :=
  (∀ v, (∃ b w', x.run w = (.ok (.success v b), w')) ↔ right v) ∧
      ((∃ b w', x.run w = (.ok (.failure b), w')) ↔ ∀ v, ¬ right v) ∨
    (∃ w', x.run w = (.error .overflow, w')) ∧
      ∃ ts, ts <+: w.state.place.rest ∧ ruler.positionAfter w.state.position ts = none

namespace Recognises

variable {x : Run τ ω (Outcome α)} {w w' : World τ ω} {right right' : α → Prop} {v : α} {b : Bool}

theorem of_success (hrun : x.run w = (.ok (.success v b), w')) (h : ∀ v', right v' ↔ v' = v) :
    x.Recognises ruler w right := by
  refine .inl ⟨fun v' => ?_, ?_⟩
  · simp [hrun, h, eq_comm]
  · simp [hrun, h]

theorem of_failure (hrun : x.run w = (.ok (.failure b), w')) (h : ∀ v, ¬ right v) :
    x.Recognises ruler w right := by
  refine .inl ⟨fun v' => ?_, ?_⟩
  · simp [hrun, h]
  · simp [hrun, h]

theorem of_overflow (hmoves : x.Moves ruler false) (hrun : x.run w = (.error .overflow, w')) :
    x.Recognises ruler w right := by
  obtain ⟨ts, hpass, -, hstuck⟩ := hmoves hrun
  exact .inr ⟨⟨w', hrun⟩, hpass.exists_positionAfter_eq_none (hstuck rfl)⟩

theorem congr (h : x.Recognises ruler w right) (hright : ∀ v, right v ↔ right' v) :
    x.Recognises ruler w right' := by
  simpa only [Recognises, hright] using h

end Recognises

end Run

namespace Parser

section Whole

variable {call : Calls τ ρ ω} {copy : Nat} {w w₁ : World τ ω}

/-- A value that is right at the end of the input and nowhere else. -/
theorem recognises_of_success {p : Parser τ ρ ω α} {right : α → Prop} {v : α} {b : Bool}
    (hrun : (p.eval ruler call copy).run w = (.ok (.success v b), w₁))
    (h : ∀ v', right v' ↔ v' = v ∧ w₁.state.place.rest = []) :
    ((before p endOfInput).eval ruler call copy).Recognises ruler w right := by
  rcases hrest : w₁.state.place.rest with _ | ⟨t, ts⟩
  · have hpeek : w₁.state.peek = none := congrArg List.head? hrest
    have hend : (Run.endOfInput [.endOfInput]).run w₁ = (.ok (.success () false), w₁) := by
      rw [Run.endOfInput, Run.run_bind_of_ok (Run.run_getState w₁), hpeek]
      rfl
    refine .of_success (Run.run_pair_of_success hrun hend _) fun v' => ?_
    simp [h, hrest]
  · have hpeek : w₁.state.peek = some t := congrArg List.head? hrest
    obtain ⟨w₂, hend⟩ : ∃ w₂,
        (Run.endOfInput [.endOfInput]).run w₁ = (.ok (.failure false), w₂) := by
      rw [Run.endOfInput, Run.run_bind_of_ok (Run.run_getState w₁), hpeek]
      exact ⟨_, rfl⟩
    refine .of_failure (Run.run_pair_of_failure_second hrun hend _) fun v' => ?_
    simp [h, hrest]

/-- A list or nothing, up to the end of the input, by how the attempt to read the list ends. -/
theorem recognises_of_listRead {accepts : τ → Bool} {c : τ} {bare trailing : Bool}
    {p : Parser τ ρ ω (List (List τ))} (hc : accepts c = false)
    (hmoves : ((before (orElse p empty) endOfInput).eval ruler call copy).Moves ruler false)
    (hp : ∃ r w₁, (p.eval ruler call copy).run w = (r, w₁) ∧
      Run.ListRead accepts c bare trailing w r w₁) :
    ((before (orElse p empty) endOfInput).eval ruler call copy).Recognises ruler w fun vs =>
      Printed accepts c bare trailing vs w.state.place.rest := by
  obtain ⟨r, w₁, hrun, hread⟩ := hp
  cases hread with
  | missing hhalts hplace =>
      refine recognises_of_success (run_orElse_of_failure hrun rfl) fun vs => ?_
      rw [printed_iff_of_halts hhalts, hplace]
  | @listed vs tail allowed _ hruns hvs hrest hcloses hwhole =>
      cases allowed with
      | true =>
          refine recognises_of_success (run_orElse_of_committed hrun rfl) fun vs' => ?_
          rw [hrest, printed_append_iff hc hruns hvs hcloses, ← hwhole]
          simp
      | false =>
          have hfail := run_orElse_of_committed (q := empty) hrun rfl
          refine .of_failure (Run.run_pair_of_failure_first hfail _) fun vs' => ?_
          rw [hrest, printed_append_iff hc hruns hvs hcloses, ← hwhole]
          simp
  | overflow =>
      exact .of_overflow hmoves (Run.run_pair_of_error_first (run_orElse_of_error hrun) _)

end Whole

/-- **Lists of runs are what is printed.** Let a separator be a token outside of a class, and an
    item as many tokens of the class as there are, and one at least. Over the tokens that are left
    in any state, up to the end of the input:

    the list with separators between its items succeeds exactly if the tokens are some items with
    separators between them; the list that may be terminated succeeds on these, and on these with
    one more separator behind the last item; the list with a separator behind each item succeeds
    exactly if the tokens are items with a separator behind each. The value is the list of the items
    each time, and there is no other such list. Where there is none, the parser fails.

    The one exception is a parser that stops, because there is no position behind some of the
    tokens. It never is at fault. -/
theorem lists_recognised_iff_printed [DecidableEq τ] (ruler : Ruler τ) (rules : Rules τ ρ ω)
    (depth copy : Nat) (accepts : τ → Bool) (c : τ) (hc : accepts c = false)
    (itemName name₁ name₂ name₃ : String) (w : World τ ω) :
    let item : Parser τ ρ ω (List τ) := many1 itemName (candidate accepts)
    let whole (p : Parser τ ρ ω (List (List τ))) :=
      (before p endOfInput).eval ruler (calls ruler rules depth) copy
    let ts := w.state.place.rest
    let bare vs := AreRuns accepts vs ∧ ts = [c].intercalate vs
    let optional vs := AreRuns accepts vs ∧
      (ts = [c].intercalate vs ∨ vs ≠ [] ∧ ts = [c].intercalate vs ++ [c])
    let trailing vs := AreRuns accepts vs ∧ ts = vs.flatMap (· ++ [c])
    (whole (sepBy name₁ item (token c))).Recognises ruler w bare ∧
    (whole (sepEndBy name₂ item (token c))).Recognises ruler w optional ∧
    (whole (endBy name₃ item (token c))).Recognises ruler w trailing ∧
    ∀ vs vs', (bare vs → bare vs' → vs = vs') ∧ (optional vs → optional vs' → vs = vs') ∧
      (trailing vs → trailing vs' → vs = vs') := by
  intro item whole ts bare optional trailing
  have hx := moves_eval_calls ruler rules depth item copy
  have hy := moves_eval_calls ruler rules depth (token c) copy
  have hp := alwaysConsumes_eval_calls ruler rules depth (p := item) rfl copy
  have hs := alwaysConsumes_eval_calls ruler rules depth (p := token c) rfl copy
  have hpair := moves_eval_calls ruler rules depth (before item (token c)) copy
  have hwhole {p : Parser τ ρ ω (List (List τ))} {b t : Bool}
      (h : (item.eval ruler (calls ruler rules depth) copy).ReadsLists
        ((token c).eval ruler (calls ruler rules depth) copy) b t
        (p.eval ruler (calls ruler rules depth) copy)) :
      (whole (orElse p empty)).Recognises ruler w fun vs => Printed accepts c b t vs ts :=
    recognises_of_listRead hc (moves_eval_calls ruler rules depth _ copy)
      (Run.exists_listRead (fun _ _ _ h => runRead_of_many1 h)
        (fun _ _ _ h => Run.tokenRead_of_satisfy h) hx hy hc h w)
  refine ⟨?_, ?_, ?_, fun vs vs' => ⟨?_, ?_, ?_⟩⟩
  · exact (hwhole (Run.readsLists_separated hx hy hp name₁ _)).congr fun _ => printed_bare_iff
  · exact (hwhole (Run.readsLists_optionallyTerminated hx hy hp name₂)).congr
      fun _ => printed_optional_iff
  · exact (hwhole (readsLists_endBy1 hpair hp hs name₃)).congr fun _ => printed_trailing_iff
  · intro h h'
    exact (printed_bare_iff.2 h').unique hc (printed_bare_iff.2 h)
  · intro h h'
    exact (printed_optional_iff.2 h').unique hc (printed_optional_iff.2 h)
  · intro h h'
    exact (printed_trailing_iff.2 h').unique hc (printed_trailing_iff.2 h)

/-- Two words with a comma between them. The list with separators between its values has both words,
    and the list with a separator behind each value fails, because the tokens do not end with a
    comma. -/
theorem lists_recognised_iff_printed_words :
    let item : Parser Char (fun _ => Empty) Unit (List Char) :=
      many1 "candidate" (candidate Char.isAlpha)
    let ruler := Ruler.ofTokens fun _ p => p.afterToken
    let call := calls ruler (fun _ => Empty.elim) 0
    let w : World Char Unit := ⟨State.initial Position.first ['a', 'b', ',', 'c'], [], .empty⟩
    Char.isAlpha ',' = false ∧
    (∃ b w', ((before (sepBy "item" item (token ',')) endOfInput).eval ruler call 0).run w =
      (.ok (.success [['a', 'b'], ['c']] b), w')) ∧
    ∃ b w', ((before (endBy "item" item (token ',')) endOfInput).eval ruler call 0).run w =
      (.ok (.failure b), w') := by
  intro item ruler call w
  have hc : Char.isAlpha ',' = false := by decide
  have hroom : ¬ ∃ ts, ts <+: w.state.place.rest ∧
      ruler.positionAfter w.state.position ts = none := by
    rintro ⟨ts, hprefix, hnone⟩
    have hlength : ts.length ≤ 4 := hprefix.length_le
    have hcolumn : w.state.position.column + ts.length ≤ Position.maxCoordinate :=
      Nat.le_trans (Nat.add_le_add_left hlength _) (by decide)
    obtain ⟨q, hq⟩ : ∃ q, ruler.positionAfter w.state.position ts = some q :=
      Position.exists_positionAfter_afterToken (fun _ _ => rfl) hcolumn
    rw [hnone] at hq
    cases hq
  obtain ⟨hbare, -, htrailing, -⟩ := lists_recognised_iff_printed ruler (fun _ => Empty.elim) 0 0
    Char.isAlpha ',' hc "candidate" "item" "item" "item" w
  refine ⟨hc, ?_, ?_⟩
  · rcases hbare with ⟨hvalue, -⟩ | ⟨-, hstuck⟩
    · exact (hvalue _).2 ⟨by simp [AreRuns], rfl⟩
    · exact absurd hstuck hroom
  · rcases htrailing with ⟨-, hfailure⟩ | ⟨-, hstuck⟩
    · refine hfailure.2 fun vs hprinted => ?_
      obtain ⟨-, htokens⟩ := hprinted
      by_cases hvs : vs = []
      · subst hvs
        cases htokens
      · rw [flatMap_eq_intercalate ',' hvs] at htokens
        have hlast := congrArg List.getLast? htokens
        simp [w, State.initial, Place.start] at hlast
    · exact absurd hstuck hroom

/-- A printed list is not read at the last column: the run in it stops, because there is no column
    behind the token. -/
theorem list_unread_at_last_column :
    let accepts (t : Char) := decide (t = 'a')
    let p : Parser Char (fun _ => Empty) Unit (List (List Char)) :=
      before (sepBy "item" (many1 "candidate" (candidate accepts)) (token ',')) endOfInput
    let ruler := Ruler.ofTokens fun _ p => p.afterToken
    let w : World Char Unit := ⟨State.initial ⟨1, Position.maxCoordinate⟩ ['a'], [], .empty⟩
    accepts ',' = false ∧ AreRuns accepts [['a']] ∧ w.state.place.rest = [','].intercalate [['a']] ∧
    ∀ depth, ¬ ∃ r w',
      (p.eval ruler (calls ruler (fun _ => Empty.elim) depth) 0).run w = (r, w') ∧
        ((∃ b, r = .ok (.success [['a']] b)) ∨ ∃ b, r = .ok (.failure b)) := by
  intro accepts p ruler w
  refine ⟨by decide, by simp [AreRuns, accepts], rfl, fun depth => ?_⟩
  rintro ⟨r, w', hrun, hr⟩
  have hoverflow : (p.eval ruler (calls ruler (fun _ => Empty.elim) depth) 0).run w =
      (.error .overflow, _) := rfl
  rw [hoverflow] at hrun
  obtain ⟨rfl, -⟩ := Prod.mk.inj hrun
  rcases hr with ⟨_, h⟩ | ⟨_, h⟩ <;> cases h

end Parser

end CommittedChoice
