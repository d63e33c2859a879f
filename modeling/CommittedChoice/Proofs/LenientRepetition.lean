import CommittedChoice.Proofs.Chains
import CommittedChoice.Text.Parsers

set_option autoImplicit false

/-! # Repeating a parser that always finds something

A parser is lenient if it reads nothing where it finds nothing: an optional value, any number of
values, with separators or without (`Parser.IsLenient`). Each is a choice whose last alternative is a
value for nothing, so that a lenient parser never fails without consuming (`Run.NeverMisses`).

But a failure without consuming is the only way for a loop to end well. So a repetition of a lenient
parser (`Parser.IsRepetitionOf`) is doomed, whatever the input is: it fails after consuming or it
stops, for after some rounds its body succeeds without consuming (`Run.NeverMisses.doomed_chain`).
This is so also if the repetition is lenient itself, because its own value for nothing is never asked
for (`Run.Doomed.choice`). The main statement is `Parser.lenient_repetition_fails`. -/

namespace CommittedChoice

variable {τ ω α β : Type} {ρ : Type → Type} {ruler : Ruler τ}

/-! ## Computations that never fail without consuming -/

namespace Run

/-- The computation never fails without consuming. -/
def NeverMisses (x : Run τ ω (Outcome α)) : Prop :=
  ∀ w w' : World τ ω, x.run w ≠ (.ok (.failure false), w')

/-- The computation fails after consuming, or it stops. -/
def Doomed (x : Run τ ω (Outcome α)) : Prop :=
  ∀ ⦃w : World τ ω⦄ ⦃r : Except Stop (Outcome α)⦄ ⦃w' : World τ ω⦄, x.run w = (r, w') →
    r = .ok (.failure true) ∨ ∃ reason, r = .error reason

variable {x : Run τ ω (Outcome α)}

/-- One alternative that never fails without consuming is enough: either it is reached, or an
    alternative before it is final. -/
theorem NeverMisses.alternatives {exhausted : Option (ParseError τ) → Run τ ω (Outcome α)}
    {xs : List (Run τ ω (Outcome α))} (hmem : x ∈ xs) (hx : x.NeverMisses)
    (best : Option (ParseError τ)) : (Run.alternatives exhausted best xs).NeverMisses := by
  induction xs generalizing best with
  | nil => cases hmem
  | cons y xs ih =>
      intro w w' hrun
      obtain ⟨outcome, w₁, hfirst, hrest⟩ := run_bind_eq_ok_iff.1 hrun
      rcases outcome with ⟨v, consumed⟩ | _ | _
      · cases hrest
      · rcases List.mem_cons.1 hmem with rfl | hmem
        · exact hx w w₁ hfirst
        · exact ih hmem _ w₁ w' hrest
      · cases hrest

theorem NeverMisses.choice {expected : List (Expected τ)} {xs : List (Run τ ω (Outcome α))}
    (hmem : x ∈ xs) (hx : x.NeverMisses) : (Run.choice expected xs).NeverMisses :=
  NeverMisses.alternatives hmem hx none

/-- A chain ends well only if its body fails without consuming. -/
theorem NeverMisses.doomed_chain (hx : x.NeverMisses) (hmoves : x.Moves ruler false)
    (hcouples : x.Couples (Coupling.byPlace ω ruler) False x) (name : String) (seed : β)
    (combine : β → α → β) : (Run.chain name seed combine x).Doomed := by
  intro w r w' hrun
  cases (chain_run_iff hmoves hcouples).1 hrun with
  | ended _ _ hlast => exact absurd hlast (hx _ _)
  | missing hfirst => exact absurd hfirst (hx _ _)
  | broken => exact .inl rfl
  | stopped => exact .inr ⟨_, rfl⟩
  | looped => exact .inr ⟨_, rfl⟩

theorem doomed_failure : (pure (.failure true) : Run τ ω (Outcome α)).Doomed := by
  rintro w _ w' ⟨⟩
  exact .inl rfl

theorem Doomed.bind {f : Outcome α → Run τ ω (Outcome β)} (hx : x.Doomed)
    (hf : (f (.failure true)).Doomed) : (x >>= f).Doomed := by
  intro w r w' hrun
  rcases hfirst : x.run w with ⟨reason | outcome, w₁⟩
  · rw [run_bind_of_error hfirst] at hrun
    obtain ⟨rfl, -⟩ := Prod.mk.inj hrun
    exact .inr ⟨reason, rfl⟩
  · rw [run_bind_of_ok hfirst] at hrun
    rcases hx hfirst with houtcome | ⟨reason, houtcome⟩
    · obtain rfl := Except.ok.inj houtcome
      exact hf hrun
    · cases houtcome

/-- A doomed alternative leaves no chance to the alternatives after it. -/
theorem Doomed.choice (hx : x.Doomed) (expected : List (Expected τ))
    (xs : List (Run τ ω (Outcome α))) : (Run.choice expected (x :: xs)).Doomed :=
  hx.bind doomed_failure

end Run

namespace Parser

/-! ## Lenient parsers -/

/-- The parsers that read nothing where they find nothing. -/
inductive IsLenient : (α : Type) → Parser τ ρ ω α → Prop where
  | optional {α : Type} (p : Parser τ ρ ω α) : IsLenient (Option α) (optional p)
  | many {α : Type} (name : String) (p : Parser τ ρ ω α) : IsLenient (List α) (many name p)
  | skipMany {α : Type} (name : String) (p : Parser τ ρ ω α) : IsLenient Unit (skipMany name p)
  | chainOrSeed {α β : Type} (name : String) (seed : β) (combine : β → α → β)
      (p : Parser τ ρ ω α) : IsLenient β (chainOrSeed name seed combine p)
  | manyString {α : Type} (name : String) (text : α → String) (p : Parser τ ρ ω α) :
      IsLenient String (manyString name text p)
  | sepBy {α β : Type} (name : String) (p : Parser τ ρ ω α) (separator : Parser τ ρ ω β) :
      IsLenient (List α) (sepBy name p separator)
  | sepEndBy {α β : Type} (name : String) (p : Parser τ ρ ω α) (separator : Parser τ ρ ω β) :
      IsLenient (List α) (sepEndBy name p separator)
  | endBy {α β : Type} (name : String) (p : Parser τ ρ ω α) (separator : Parser τ ρ ω β) :
      IsLenient (List α) (endBy name p separator)

/-- The repetitions of a parser. -/
inductive IsRepetitionOf (q : Parser τ ρ ω α) : (β : Type) → Parser τ ρ ω β → Prop where
  | many (name : String) : IsRepetitionOf q (List α) (many name q)
  | many1 (name : String) : IsRepetitionOf q (List α) (many1 name q)
  | skipMany (name : String) : IsRepetitionOf q Unit (skipMany name q)
  | skipMany1 (name : String) : IsRepetitionOf q Unit (skipMany1 name q)
  | chainOrSeed {β : Type} (name : String) (seed : β) (combine : β → α → β) :
      IsRepetitionOf q β (chainOrSeed name seed combine q)
  | manyString (name : String) (text : α → String) :
      IsRepetitionOf q String (manyString name text q)

section Lenient

variable {call : Calls τ ρ ω} {copy : Nat}

theorem neverMisses_value (v : α) :
    ((value v : Parser τ ρ ω α).eval ruler call copy).NeverMisses := nofun

theorem neverMisses_map_value (f : β → α) (v : β) :
    ((map f (value v) : Parser τ ρ ω α).eval ruler call copy).NeverMisses := nofun

theorem neverMisses_orElse {p q : Parser τ ρ ω α} (hq : (q.eval ruler call copy).NeverMisses) :
    ((orElse p q).eval ruler call copy).NeverMisses := by
  rw [eval_orElse]
  exact .choice (List.mem_cons_of_mem _ (List.mem_singleton_self _)) hq

theorem IsLenient.neverMisses {p : Parser τ ρ ω α} (h : IsLenient α p) :
    (p.eval ruler call copy).NeverMisses := by
  cases h with
  | optional => exact neverMisses_orElse (neverMisses_map_value _ ())
  | many => exact neverMisses_orElse (neverMisses_map_value _ ())
  | skipMany => exact neverMisses_orElse (neverMisses_value ())
  | chainOrSeed => exact neverMisses_orElse (neverMisses_map_value _ ())
  | manyString => exact neverMisses_orElse (neverMisses_value "")
  | sepBy => exact neverMisses_orElse (neverMisses_map_value _ ())
  | sepEndBy => exact neverMisses_orElse (neverMisses_map_value _ ())
  | endBy => exact neverMisses_orElse (neverMisses_map_value _ ())

end Lenient

/-! ## Repetitions -/

theorem doomed_orElse {p : Parser τ ρ ω α} {call : Calls τ ρ ω} {copy : Nat}
    (hp : (p.eval ruler call copy).Doomed) (q : Parser τ ρ ω α) :
    ((orElse p q).eval ruler call copy).Doomed := by
  rw [eval_orElse]
  exact hp.choice _ _

/-- All repetitions are made from chains. -/
theorem IsRepetitionOf.doomed {q : Parser τ ρ ω α} {p : Parser τ ρ ω β} (h : IsRepetitionOf q β p)
    {call : Calls τ ρ ω} {copy : Nat}
    (hchain : ∀ {γ : Type} (name : String) (seed : γ) (combine : γ → α → γ),
      ((chain name seed combine q).eval ruler call copy).Doomed) :
    (p.eval ruler call copy).Doomed := by
  have hmany1 (name : String) : ((Parser.many1 name q).eval ruler call copy).Doomed := by
    rw [Parser.many1, eval_adapt]
    exact (hchain name [] _).bind Run.doomed_failure
  cases h with
  | many name => exact doomed_orElse (hmany1 name) empty
  | many1 name => exact hmany1 name
  | skipMany name => exact doomed_orElse (hchain name () _) unit
  | skipMany1 name => exact hchain name () _
  | chainOrSeed name seed combine => exact doomed_orElse (hchain name seed combine) _
  | manyString name text => exact doomed_orElse (hchain name "" _) emptyString

/-- **Repeating a lenient parser does not end well.** An optional value, any number of values, and any
    number of values with separators between or behind them never fail without consuming. A repetition
    of such a parser never succeeds and never fails without consuming, whatever the input is: if it
    ends, it fails after consuming, or the grammar is at fault, or a coordinate leaves its range,
    which happens only if the ruler has no position behind some of the tokens left. -/
theorem lenient_repetition_fails {q : Parser τ ρ ω α} (hq : IsLenient α q) (ruler : Ruler τ)
    (rules : Rules τ ρ ω) (depth copy : Nat) :
    (∀ w w', (q.eval ruler (calls ruler rules depth) copy).run w ≠ (.ok (.failure false), w')) ∧
    ∀ {β : Type} {p : Parser τ ρ ω β}, IsRepetitionOf q β p → ∀ w r w',
      (p.eval ruler (calls ruler rules depth) copy).run w = (r, w') → r ≠ .error .unfinished →
      r = .ok (.failure true) ∨ (∃ error, r = .error (.fault error)) ∨
      r = .error .overflow ∧
        ∃ ts, ts <+: w.state.place.rest ∧ ruler.positionAfter w.state.position ts = none := by
  refine ⟨hq.neverMisses, fun {β p} hp w r w' hrun hfinish => ?_⟩
  have hdoomed : (p.eval ruler (calls ruler rules depth) copy).Doomed :=
    hp.doomed fun name seed combine =>
      hq.neverMisses.doomed_chain (moves_eval_calls ruler rules depth q copy)
        (couples_eval_calls (Coupling.byPlace ω ruler) rules depth q (fun _ => rfl) False)
        name seed combine
  have hr : ((p.eval ruler (calls ruler rules depth) copy).run w).1 = r := by rw [hrun]
  have hends := ends_of_moves (moves_eval_calls ruler rules depth p copy) (hr ▸ hfinish)
  rw [hr] at hends
  rcases hends with ⟨outcome, rfl⟩ | hstop
  · rcases hdoomed hrun with hfailure | ⟨reason, hreason⟩
    · exact .inl hfailure
    · cases hreason
  · exact .inr hstop

/-- Any number of optional letters: the second round finds nothing and succeeds, and so the parse ends
    behind the first letter without a value. -/
theorem lenient_repetition_fails_optional_letters :
    let q : Parser Char (fun _ => Empty) Unit (Option Char) := optional (token 'a')
    let ruler := Ruler.ofString (TextLayout.next {})
    let w : World Char Unit := ⟨State.initial Position.first ['a', 'b'], [], .empty⟩
    (∀ w', (q.eval ruler (calls ruler (fun _ => Empty.elim) 0) 0).run w ≠
      (.ok (.failure false), w')) ∧
    ∃ r w', ((many "letter" q).eval ruler (calls ruler (fun _ => Empty.elim) 0) 0).run w = (r, w') ∧
      w'.state.cursor = 1 ∧ (r = .ok (.failure true) ∨ ∃ error, r = .error (.fault error)) := by
  intro q ruler w
  have hrun : ((many "letter" q).eval ruler (calls ruler (fun _ => Empty.elim) 0) 0).run w =
      (.error (.fault (Loop.chain.fault "letter")), _) := rfl
  obtain ⟨hnever, hrepetition⟩ :=
    lenient_repetition_fails (.optional (token 'a')) ruler (fun _ => Empty.elim) 0 0
  refine ⟨hnever w, _, _, hrun, rfl, ?_⟩
  rcases hrepetition (.many "letter") w _ _ hrun nofun with hfailure | hfault | ⟨hoverflow, -⟩
  · exact .inl hfailure
  · exact .inr hfault
  · cases hoverflow

/-- Any number of any number of tokens at the last column is neither at fault nor fails: the first
    token stops the parse, because there is no column behind it. -/
theorem lenient_repetition_overflow_at_last_column :
    let q : Parser Char (fun _ => Empty) Unit (List Char) := many "any token" anyToken
    let ruler := Ruler.ofString (TextLayout.next {})
    let w : World Char Unit := ⟨State.initial ⟨1, Position.maxCoordinate⟩ ['a'], [], .empty⟩
    IsLenient (List Char) q ∧ ∀ depth, ∃ r w',
      ((many "many" q).eval ruler (calls ruler (fun _ => Empty.elim) depth) 0).run w = (r, w') ∧
        r ≠ .error .unfinished ∧ r ≠ .ok (.failure true) ∧ ¬ ∃ error, r = .error (.fault error) := by
  intro q ruler w
  refine ⟨.many _ _, fun depth => ⟨.error .overflow, _, rfl, nofun, nofun, ?_⟩⟩
  rintro ⟨error, h⟩
  cases h

end Parser

end CommittedChoice
