import CommittedChoice.Proofs.Reachable

set_option autoImplicit false

/-! # The tokens of a value

A parser that only pairs up, collects and chooses what its parts have read gives back its tokens: the
tokens of its value, read from left to right, are those between the place where it started and the
place where it ended. Nothing of an alternative that was given up is left in the value, and nothing is
dropped or taken twice where a loop goes on to its next round.

How the tokens of a value are read is a `Reading`. `Parser.Collects` describes the parsers, with a
reading of the values of each. On the side of the computations, `Run.Yields ruler past u x` says that
a success of `x` has passed the tokens which its value has behind `past`, where `past` are the tokens
that were read for this value before. Like the flag of what was consumed earlier, `past` makes the
statement compose and is the invariant of the loops. The main statement is
`Parser.tokens_eval_calls`. -/

namespace CommittedChoice

variable {τ ω α β : Type} {ruler : Ruler τ}

/-! ## Reading the tokens of a value -/

/-- How to read the tokens of a value from left to right. -/
abbrev Reading (τ α : Type) : Type := α → List τ

namespace Reading

/-- A token is itself. -/
def token : Reading τ τ := fun t => [t]

/-- The unit value has no tokens. -/
def nothing : Reading τ Unit := fun _ => []

/-- A list has the tokens of its members. -/
def list (r : Reading τ α) : Reading τ (List α) := fun vs => vs.flatMap r

/-- A pair has the tokens of its components. -/
def pair (r : Reading τ α) (s : Reading τ β) : Reading τ (α × β) := fun v => r v.1 ++ s v.2

/-- An optional value has the tokens of the value if there is one. -/
def option (r : Reading τ α) : Reading τ (Option α)
  | none => []
  | some v => r v

@[simp] theorem list_nil (r : Reading τ α) : list r [] = [] := rfl

@[simp] theorem list_cons (r : Reading τ α) (v : α) (vs : List α) :
    list r (v :: vs) = r v ++ list r vs := rfl

@[simp] theorem list_append (r : Reading τ α) (vs us : List α) :
    list r (vs ++ us) = list r vs ++ list r us := List.flatMap_append

end Reading

/-! ## Computations that yield what they pass -/

/-- Each success has passed the tokens that its value has behind `past`. -/
def Run.Yields (ruler : Ruler τ) (past : List τ) (u : Reading τ α) (x : Run τ ω (Outcome α)) :
    Prop :=
  ∀ ⦃w : World τ ω⦄ ⦃v : α⦄ ⦃consumed : Bool⦄ ⦃w' : World τ ω⦄,
    x.run w = (.ok (.success v consumed), w') →
      ∃ ts, w.state.place.Passes ruler ts w'.state.place ∧ u v = past ++ ts

namespace Run.Yields

variable {past : List τ} {r : Reading τ α} {s : Reading τ β} {x : Run τ ω (Outcome α)}

theorem success {v : α} (h : r v = past) (consumed : Bool) :
    (pure (.success v consumed) : Run τ ω (Outcome α)).Yields ruler past r := by
  rintro w _ _ _ ⟨⟩
  exact ⟨[], .refl _, by rw [h, List.append_nil]⟩

theorem failure (consumed : Bool) :
    (pure (.failure consumed) : Run τ ω (Outcome α)).Yields ruler past r := nofun

theorem stop (reason : Stop) : (Run.stop reason : Run τ ω (Outcome α)).Yields ruler past r := nofun

theorem loopFault (loop : Loop) (name : String) :
    (Run.loopFault loop name : Run τ ω (Outcome α)).Yields ruler past r := nofun

theorem forward (expected : List (Expected τ)) (consumed : Bool) :
    (Run.forward expected consumed : Run τ ω (Outcome α)).Yields ruler past r := nofun

/-- A step that stays where it is reads nothing. -/
theorem of_still {y : Run τ ω β} {f : β → Run τ ω (Outcome α)} (hy : y.Still)
    (hf : ∀ b, (f b).Yields ruler past r) : (y >>= f).Yields ruler past r := by
  intro w v consumed w' hrun
  obtain ⟨b, w₁, hfirst, hplace⟩ := hy w
  rw [run_bind_of_ok hfirst] at hrun
  rw [← hplace]
  exact hf b hrun

/-- What follows a success has the tokens of its value to go on from. A failure that did not consume
    has read nothing; one that did has read tokens which no value accounts for, so that only what
    cannot succeed may follow. -/
theorem bind {f : Outcome α → Run τ ω (Outcome β)} (hmoves : x.Moves ruler false)
    (hx : x.Yields ruler [] r)
    (hsuccess : ∀ v consumed, (f (.success v consumed)).Yields ruler (past ++ r v) s)
    (hfailure : (f (.failure false)).Yields ruler past s)
    (hcommitted : ∀ us, (f (.failure true)).Yields ruler us s) :
    (x >>= f).Yields ruler past s := by
  intro w b c w' hrun
  obtain ⟨outcome, w₁, hfirst, hrest⟩ := run_bind_eq_ok_iff.1 hrun
  obtain ⟨v, consumed⟩ | _ | _ := outcome
  · obtain ⟨ts, hpass, hts⟩ := hx hfirst
    obtain ⟨us, hpass', hus⟩ := hsuccess v consumed hrest
    refine ⟨ts ++ us, hpass.trans hpass', ?_⟩
    rw [hus, hts, List.nil_append, List.append_assoc]
  · rw [← hmoves.place_eq hfirst rfl]
    exact hfailure hrest
  · obtain ⟨ts, hpass, -, -⟩ := hmoves hfirst
    obtain ⟨us, hpass', hus⟩ := hcommitted (past ++ ts) hrest
    exact ⟨ts ++ us, hpass.trans hpass', by rw [hus, List.append_assoc]⟩

theorem map {f : α → β} (hx : x.Yields ruler [] r) (hf : ∀ v, s (f v) = past ++ r v) :
    (x >>= fun outcome => pure (outcome.map f)).Yields ruler past s := by
  intro w b c w' hrun
  obtain ⟨outcome, w₁, hfirst, hrest⟩ := run_bind_eq_ok_iff.1 hrun
  obtain ⟨v, consumed⟩ | consumed := outcome
  · cases hrest
    obtain ⟨ts, hpass, hts⟩ := hx hfirst
    exact ⟨ts, hpass, by rw [hf, hts, List.nil_append]⟩
  · cases hrest

/-! ## Leaves -/

/-- Reading the next token, which the rest of the computation takes into its value. -/
theorem advance_of_peek {w w' : World τ ω} {t : τ} {v : α} {consumed : Bool}
    (hpeek : w.state.peek = some t) (hx : x.Yields ruler (past ++ [t]) r)
    (hrun : (Run.advance ruler >>= fun _ => x).run w = (.ok (.success v consumed), w')) :
    ∃ ts, w.state.place.Passes ruler ts w'.state.place ∧ r v = past ++ ts := by
  obtain ⟨us, hrest⟩ : ∃ us, w.state.place.rest = t :: us := List.head?_eq_some_iff.1 hpeek
  cases hnext : w.state.place.next? ruler with
  | none =>
      rw [run_bind_of_error (run_advance_of_none hnext)] at hrun
      cases hrun
  | some q =>
      rw [run_bind_of_ok (run_advance_of_some hnext)] at hrun
      obtain ⟨ts, hpass, hts⟩ := hx hrun
      refine ⟨[t] ++ ts, (Place.passes_of_next? hrest hnext).trans hpass, ?_⟩
      rw [hts, List.append_assoc]

theorem satisfy (accepts : τ → Bool) (expected : List (Expected τ)) :
    (Run.satisfy ruler accepts expected : Run τ ω (Outcome τ)).Yields ruler [] .token := by
  intro w v consumed w' hrun
  rw [Run.satisfy, run_bind_of_ok (run_getState w)] at hrun
  split at hrun
  · cases hrun
  · next t hpeek =>
      split at hrun
      · exact advance_of_peek hpeek (success rfl true) hrun
      · cases hrun

theorem spelled (expected : List (Expected τ)) (tests : List (τ → Bool)) (earlier : Bool) :
    (Run.spelled ruler expected earlier tests : Run τ ω (Outcome (List τ))).Yields ruler []
      (.list .token) := by
  induction tests generalizing earlier with
  | nil => exact success rfl earlier
  | cons accepts tests ih =>
      intro w v consumed w' hrun
      rw [Run.spelled, run_bind_of_ok (run_getState w)] at hrun
      split at hrun
      · cases hrun
      · next t hpeek =>
          split at hrun
          · exact advance_of_peek hpeek ((ih true).map fun _ => rfl) hrun
          · cases hrun

/-! ## Sequences and choice -/

theorem component {expected : List (Expected τ)} {earlier : Bool}
    {next : α → Bool → Run τ ω (Outcome β)} (hmoves : x.Moves ruler false)
    (hx : x.Yields ruler [] r)
    (hnext : ∀ v consumed, (next v consumed).Yields ruler (past ++ r v) s) :
    (Run.component expected earlier x next).Yields ruler past s :=
  bind hmoves hx (fun v consumed => hnext v (earlier || consumed)) (forward expected _)
    fun _ => forward expected _

theorem all {expected : List (Expected τ)} {earlier : Bool} {xs : List (Run τ ω (Outcome α))}
    (hxs : ∀ x ∈ xs, x.Moves ruler false ∧ x.Yields ruler [] r) :
    (Run.all expected earlier xs).Yields ruler [] (.list r) := by
  induction xs generalizing earlier with
  | nil => exact success rfl earlier
  | cons x xs ih =>
      obtain ⟨⟨hmoves, hx⟩, htail⟩ := List.forall_mem_cons.1 hxs
      exact component hmoves hx fun v consumed => (ih htail).map fun _ => rfl

/-- The value is that of the alternative that succeeds. Those before it did not consume, so that it
    starts where the choice did. -/
theorem alternatives {exhausted : Option (ParseError τ) → Run τ ω (Outcome α)}
    {best : Option (ParseError τ)} {xs : List (Run τ ω (Outcome α))}
    (hxs : ∀ x ∈ xs, x.Moves ruler false ∧ x.Yields ruler [] r)
    (hexhausted : ∀ e, (exhausted e).Yields ruler [] r) :
    (Run.alternatives exhausted best xs).Yields ruler [] r := by
  induction xs generalizing best with
  | nil => exact hexhausted best
  | cons x xs ih =>
      obtain ⟨⟨hmoves, hx⟩, htail⟩ := List.forall_mem_cons.1 hxs
      refine bind hmoves hx (fun v consumed => success rfl consumed) ?_ fun _ => failure true
      exact of_still .getState fun _ => ih htail

theorem choice {expected : List (Expected τ)} {xs : List (Run τ ω (Outcome α))}
    (hxs : ∀ x ∈ xs, x.Moves ruler false ∧ x.Yields ruler [] r) :
    (Run.choice expected xs).Yields ruler [] r := by
  refine alternatives hxs fun e => ?_
  cases e <;> exact nofun

theorem safe (hx : x.Yields ruler [] r) : (Run.safe x).Yields ruler [] r := by
  intro w v consumed w' hrun
  simp only [Run.safe, Run.speculate] at hrun
  -- the bookmark does not belong to the place, neither when it is set nor when it is removed
  rcases hbody : x.run { w with state := w.state.pushBookmark } with ⟨reason | ⟨a, c⟩ | c, w₁⟩
  · rw [hbody] at hrun
    cases hrun
  · rw [hbody] at hrun
    cases hrun
    obtain ⟨ts, hpass, hts⟩ := hx hbody
    exact ⟨ts, hpass, hts⟩
  · rw [hbody] at hrun
    cases hrun

/-! ## Repetition -/

/-- The tokens of the accumulated value are those of the rounds so far. -/
theorem rounds {loop : Loop} {name : String} {combine : β → α → β} (hmoves : x.Moves ruler false)
    (hx : x.Yields ruler [] r) (hcombine : ∀ acc v, s (combine acc v) = s acc ++ r v)
    (fuel : Nat) (acc : β) (consumed : Bool) (count : Nat) :
    (Run.rounds loop name combine x fuel acc consumed count).Yields ruler (s acc) s := by
  induction fuel generalizing acc consumed count with
  | zero => exact stop .unfinished
  | succ fuel ih =>
      refine bind hmoves hx ?_ ?_ fun _ => failure true
      · rintro v (_ | _)
        · exact loopFault loop name
        · rw [← hcombine]
          exact ih (combine acc v) true (count + 1)
      · exact of_still (.emit _) fun _ => success rfl consumed

theorem chain {name : String} {seed : β} {combine : β → α → β} (hmoves : x.Moves ruler false)
    (hx : x.Yields ruler [] r) (hseed : s seed = [])
    (hcombine : ∀ acc v, s (combine acc v) = s acc ++ r v) :
    (Run.chain name seed combine x).Yields ruler [] s := by
  refine bind hmoves hx (fun v consumed => of_still .bound fun fuel => ?_) (failure false)
    fun _ => failure true
  rw [← hseed, ← hcombine]
  exact rounds hmoves hx hcombine fuel _ consumed 1

end Run.Yields

/-! ## Parsers that collect what they read -/

namespace Parser

variable {ρ : Type → Type}

/-- The parsers whose values hold all that they read, each with a reading of its values. Functions of
    values put the tokens of their arguments one behind the other, and the values of a reference are
    read as `readings` says for its rule. -/
inductive Collects (readings : (β : Type) → ρ β → Reading τ β) :
    {α : Type} → Reading τ α → Parser τ ρ ω α → Prop where
  | satisfy (accepts : τ → Bool) (expected : List (Expected τ)) :
      Collects readings .token (.satisfy accepts expected)
  | spelled (tests : List (τ → Bool)) (expected : List (Expected τ)) :
      Collects readings (.list .token) (.spelled tests expected)
  | tokens [DecidableEq τ] (ts : List τ) : Collects readings (.list .token) (.tokens ts)
  | value {α : Type} {r : Reading τ α} {v : α} (hv : r v = []) : Collects readings r (.value v)
  | recursive {α : Type} (index : Nat) (sharing : Sharing) (rule : ρ α) :
      Collects readings (readings α rule) (.recursive index sharing rule)
  | shared {α : Type} {r : Reading τ α} {p : Parser τ ρ ω α} (hp : Collects readings r p) :
      Collects readings r (.shared p)
  | adapt {α β : Type} {r : Reading τ α} {s : Reading τ β} {f : α → β} {p : Parser τ ρ ω α}
      (hp : Collects readings r p) (hf : ∀ a, s (f a) = r a) : Collects readings s (.adapt f p)
  | map {α β : Type} {r : Reading τ α} {s : Reading τ β} {f : α → β} {p : Parser τ ρ ω α}
      (hp : Collects readings r p) (hf : ∀ a, s (f a) = r a) : Collects readings s (.map f p)
  | map2 {α β γ : Type} {r : Reading τ α} {s : Reading τ β} {t : Reading τ γ}
      {f : α → β → γ} {p : Parser τ ρ ω α} {q : Parser τ ρ ω β}
      (hp : Collects readings r p) (hq : Collects readings s q)
      (hf : ∀ a b, t (f a b) = r a ++ s b) : Collects readings t (.map2 f p q)
  | map3 {α β γ δ : Type} {r : Reading τ α} {s : Reading τ β} {t : Reading τ γ}
      {u : Reading τ δ} {f : α → β → γ → δ} {p : Parser τ ρ ω α} {q : Parser τ ρ ω β}
      {p' : Parser τ ρ ω γ} (hp : Collects readings r p) (hq : Collects readings s q)
      (hp' : Collects readings t p') (hf : ∀ a b c, u (f a b c) = r a ++ s b ++ t c) :
      Collects readings u (.map3 f p q p')
  | map4 {α β γ δ ε : Type} {r : Reading τ α} {s : Reading τ β} {t : Reading τ γ}
      {u : Reading τ δ} {v : Reading τ ε} {f : α → β → γ → δ → ε} {p : Parser τ ρ ω α}
      {q : Parser τ ρ ω β} {p' : Parser τ ρ ω γ} {q' : Parser τ ρ ω δ}
      (hp : Collects readings r p) (hq : Collects readings s q) (hp' : Collects readings t p')
      (hq' : Collects readings u q')
      (hf : ∀ a b c d, v (f a b c d) = r a ++ s b ++ t c ++ u d) :
      Collects readings v (.map4 f p q p' q')
  | all {α : Type} {r : Reading τ α} {n : Nat} {ps : Fin n → Parser τ ρ ω α}
      (hps : ∀ i, Collects readings r (ps i)) : Collects readings (.list r) (.all n ps)
  | choice {α : Type} {r : Reading τ α} {n : Nat} {ps : Fin n → Parser τ ρ ω α}
      (hps : ∀ i, Collects readings r (ps i)) : Collects readings r (.choice n ps)
  | withExpected {α : Type} {r : Reading τ α} {p : Parser τ ρ ω α}
      (expected : List (Expected τ)) (hp : Collects readings r p) :
      Collects readings r (.withExpected expected p)
  | safe {α : Type} {r : Reading τ α} {p : Parser τ ρ ω α} (hp : Collects readings r p) :
      Collects readings r (.safe p)
  | chain {α β : Type} {r : Reading τ α} {s : Reading τ β} (name : String) {seed : β}
      {combine : β → α → β} {p : Parser τ ρ ω α} (hp : Collects readings r p)
      (hseed : s seed = []) (hcombine : ∀ acc v, s (combine acc v) = s acc ++ r v) :
      Collects readings s (.chain name seed combine p)

namespace Collects

variable {readings : (β : Type) → ρ β → Reading τ β} {r : Reading τ α} {s : Reading τ β}
  {p q : Parser τ ρ ω α}

/-! ### The words of the vocabulary -/

theorem token [DecidableEq τ] (t : τ) :
    Collects readings .token (Parser.token t : Parser τ ρ ω τ) := satisfy _ _

theorem candidateLabelled (accepts : τ → Bool) (label : String) :
    Collects readings .token (Parser.candidateLabelled accepts label : Parser τ ρ ω τ) :=
  satisfy _ _

theorem candidate (accepts : τ → Bool) :
    Collects readings .token (Parser.candidate accepts : Parser τ ρ ω τ) :=
  candidateLabelled accepts _

theorem anyToken : Collects readings .token (Parser.anyToken : Parser τ ρ ω τ) :=
  candidateLabelled _ _

theorem unit : Collects readings .nothing (Parser.unit : Parser τ ρ ω Unit) := value rfl

theorem empty : Collects readings (.list r) (Parser.empty : Parser τ ρ ω (List α)) :=
  map unit fun _ => rfl

theorem sequence {ps : List (Parser τ ρ ω α)} (hps : ∀ p ∈ ps, Collects readings r p) :
    Collects readings (.list r) (Parser.sequence ps) := by
  refine all fun i => hps _ ?_
  simp

theorem pair {q : Parser τ ρ ω β} (hp : Collects readings r p) (hq : Collects readings s q) :
    Collects readings (.pair r s) (Parser.map2 Prod.mk p q) :=
  map2 hp hq fun _ _ => rfl

theorem oneOf {ps : List (Parser τ ρ ω α)} (hps : ∀ p ∈ ps, Collects readings r p) :
    Collects readings r (Parser.oneOf ps) := by
  refine choice fun i => hps _ ?_
  simp

theorem orElse (hp : Collects readings r p) (hq : Collects readings r q) :
    Collects readings r (Parser.orElse p q) :=
  oneOf (List.forall_mem_cons.2 ⟨hp, List.forall_mem_singleton.2 hq⟩)

theorem optional (hp : Collects readings r p) :
    Collects readings (.option r) (Parser.optional p) :=
  orElse (map hp fun _ => rfl) (map unit fun _ => rfl)

/-- The loop collects its values in reverse, so until its end they are read from the last one to the
    first. -/
theorem many1 (name : String) (hp : Collects readings r p) :
    Collects readings (.list r) (Parser.many1 name p) := by
  refine adapt (chain name hp (s := fun vs => Reading.list r vs.reverse) rfl ?_) fun _ => rfl
  intro acc v
  simp

theorem many (name : String) (hp : Collects readings r p) :
    Collects readings (.list r) (Parser.many name p) :=
  orElse (many1 name hp) empty

theorem labelled (label : String) (hp : Collects readings r p) :
    Collects readings r (Parser.labelled label p) :=
  withExpected _ hp

end Collects

/-! ## Running them -/

theorem yields_eval {readings : (β : Type) → ρ β → Reading τ β} {call : Calls τ ρ ω}
    (hcall : ∀ (β : Type) (rule : ρ β) (copy : Nat),
      (call β rule copy).Yields ruler [] (readings β rule))
    (hmoves : ∀ {β : Type} (q : Parser τ ρ ω β) (copy : Nat),
      (q.eval ruler call copy).Moves ruler false)
    {r : Reading τ α} {p : Parser τ ρ ω α} (hp : p.Collects readings r) (copy : Nat) :
    (p.eval ruler call copy).Yields ruler [] r := by
  induction hp generalizing copy with
  | satisfy accepts expected => exact .satisfy accepts expected
  | spelled tests expected => exact .spelled expected tests false
  | tokens ts =>
      rw [eval_tokens]
      exact .spelled _ _ false
  | value hv => exact .success hv false
  | recursive index sharing rule =>
      rw [eval_recursive]
      exact .of_still (.resolve _ sharing) fun copy => hcall _ rule copy
  | shared _ ih => exact ih 0
  | adapt _ hf ih =>
      rw [eval_adapt]
      exact (ih copy).map hf
  | map _ hf ih =>
      rw [eval_map]
      exact .component (hmoves _ copy) (ih copy) fun a _ => .success (hf a) _
  | map2 _ _ hf ihp ihq =>
      rw [eval_map2]
      exact .component (hmoves _ copy) (ihp copy) fun a _ =>
        .component (hmoves _ copy) (ihq copy) fun b _ => .success (hf a b) _
  | map3 _ _ _ hf ihp ihq ihp' =>
      rw [eval_map3]
      exact .component (hmoves _ copy) (ihp copy) fun a _ =>
        .component (hmoves _ copy) (ihq copy) fun b _ =>
        .component (hmoves _ copy) (ihp' copy) fun c _ => .success (hf a b c) _
  | map4 _ _ _ _ hf ihp ihq ihp' ihq' =>
      rw [eval_map4]
      exact .component (hmoves _ copy) (ihp copy) fun a _ =>
        .component (hmoves _ copy) (ihq copy) fun b _ =>
        .component (hmoves _ copy) (ihp' copy) fun c _ =>
        .component (hmoves _ copy) (ihq' copy) fun d _ => .success (hf a b c d) _
  | all _ ih =>
      rw [eval_all]
      refine .all fun x hx => ?_
      obtain ⟨i, rfl⟩ := List.mem_ofFn.1 hx
      exact ⟨hmoves _ copy, ih i copy⟩
  | choice _ ih =>
      rw [eval_choice]
      refine .choice fun x hx => ?_
      obtain ⟨i, rfl⟩ := List.mem_ofFn.1 hx
      exact ⟨hmoves _ copy, ih i copy⟩
  | withExpected expected _ ih =>
      rw [eval_withExpected]
      exact .component (hmoves _ copy) (ih copy) fun _ _ => .success rfl _
  | safe _ ih => exact .safe (ih copy)
  | chain name _ hseed hcombine ih => exact .chain (hmoves _ copy) (ih copy) hseed hcombine

theorem yields_calls {readings : (β : Type) → ρ β → Reading τ β} {rules : Rules τ ρ ω}
    (hrules : ∀ (β : Type) (rule : ρ β), (rules β rule).Collects readings (readings β rule))
    (depth : Nat) {β : Type} (rule : ρ β) (copy : Nat) :
    (calls ruler rules depth β rule copy).Yields ruler [] (readings β rule) := by
  induction depth generalizing β copy with
  | zero => exact .stop .unfinished
  | succ depth ih =>
      exact yields_eval (fun _ rule copy => ih rule copy)
        (fun q copy => moves_eval_calls ruler rules depth q copy) (hrules β rule) copy

/-- **No token is lost, duplicated or invented.** Let a parser and all rules collect what they read.
    If the parser succeeds, from whatever state over the input, then the tokens of its value are
    those of the input between the first cursor and the last one, in order. -/
theorem tokens_eval_calls {input : Input τ} {readings : (β : Type) → ρ β → Reading τ β}
    {rules : Rules τ ρ ω}
    (hrules : ∀ (β : Type) (rule : ρ β), (rules β rule).Collects readings (readings β rule))
    {r : Reading τ α} {p : Parser τ ρ ω α} (hp : p.Collects readings r) {depth copy : Nat}
    {w w' : World τ ω} (hplace : w.state.place.LiesIn input) {v : α} {consumed : Bool}
    (hrun : (p.eval input.ruler (calls input.ruler rules depth) copy).run w =
      (.ok (.success v consumed), w')) :
    ∃ past, input.tokens = past ++ r v ++ w'.state.place.rest ∧
      w.state.cursor = input.ruler.extent past ∧
      w'.state.cursor = input.ruler.extent (past ++ r v) := by
  have hyields : (p.eval input.ruler (calls input.ruler rules depth) copy).Yields input.ruler [] r :=
    yields_eval (fun _ rule copy => yields_calls hrules depth rule copy)
      (fun q copy => moves_eval_calls input.ruler rules depth q copy) hp copy
  obtain ⟨past, hpast⟩ := hplace
  obtain ⟨ts, hpass, hts⟩ := hyields hrun
  rw [List.nil_append] at hts
  rw [← hts] at hpass
  have hwhole := hpast.trans hpass
  exact ⟨past, hwhole.rest, hpast.cursor.trans (Nat.zero_add _),
    hwhole.cursor.trans (Nat.zero_add _)⟩

/-- Brackets around nothing or around other brackets. -/
inductive Brackets where
  | node (left : Char) (inside : Option Brackets) (right : Char)

/-- The brackets from left to right. -/
def Brackets.toList : Reading Char Brackets
  | .node left none right => [left, right]
  | .node left (some inside) right => left :: (inside.toList ++ [right])

/-- The rule of nested brackets. -/
inductive BracketRule : Type → Type where
  | brackets : BracketRule Brackets

def BracketRule.rules : Rules Char BracketRule Unit
  | _, .brackets =>
      map3 Brackets.node (token '(') (optional (recursive 0 .fresh .brackets)) (token ')')

def BracketRule.readings : (β : Type) → BracketRule β → Reading Char β
  | _, .brackets => Brackets.toList

theorem BracketRule.collects (β : Type) (rule : BracketRule β) :
    (BracketRule.rules β rule).Collects BracketRule.readings (BracketRule.readings β rule) := by
  cases rule
  refine .map3 (.token '(') (.optional (.recursive 0 .fresh BracketRule.brackets)) (.token ')') ?_
  rintro left (_ | inside) right
  · rfl
  · rfl

/-- Nested brackets and the letters behind them, read from the second character on. -/
theorem tokens_eval_calls_brackets :
    let input : Input Char :=
      ⟨['-', '(', '(', ')', ')', 'a', 'b', '!'], Ruler.ofString (TextLayout.next {}), .first⟩
    let p : Parser Char BracketRule Unit (Brackets × List Char) :=
      map2 Prod.mk (recursive 0 .fresh .brackets) (many "letter" (candidate Char.isAlpha))
    ∃ w w' : World Char Unit, ∃ v, w.state.place.LiesIn input ∧
      (p.eval input.ruler (calls input.ruler BracketRule.rules 3) 0).run w =
        (.ok (.success v true), w') ∧
      Reading.pair Brackets.toList (Reading.list Reading.token) v = ['(', '(', ')', ')', 'a', 'b'] ∧
      ∃ past, input.tokens = past ++ ['(', '(', ')', ')', 'a', 'b'] ++ w'.state.place.rest ∧
        w.state.cursor = input.ruler.extent past := by
  intro input p
  let w : World Char Unit :=
    ⟨⟨⟨1, ⟨1, 2⟩, ['(', '(', ')', ')', 'a', 'b', '!']⟩, [], .unknown⟩, [], .empty⟩
  have hplace : w.state.place.LiesIn input := ⟨['-'], rfl, rfl, rfl⟩
  have hp : p.Collects BracketRule.readings (.pair Brackets.toList (.list .token)) :=
    .pair (.recursive 0 .fresh BracketRule.brackets) (.many "letter" (.candidate Char.isAlpha))
  have hrun : (p.eval input.ruler (calls input.ruler BracketRule.rules 3) 0).run w =
      (.ok (.success (.node '(' (some (.node '(' none ')')) ')', ['a', 'b']) true), _) := rfl
  obtain ⟨past, htokens, hcursor, -⟩ := tokens_eval_calls BracketRule.collects hp hplace hrun
  exact ⟨w, _, _, hplace, hrun, rfl, past, htokens, hcursor⟩

end Parser

end CommittedChoice
