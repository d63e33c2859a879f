import CommittedChoice.Proofs.Agreement

set_option autoImplicit false

/-! # References in guarded grammars

A reference to a rule runs a whole grammar again, so a parse ends only if something is used up on the
way. In a *guarded* rule every reference stands behind a part of the same sequence that always
consumes (`Parser.Guarded`): then each nested reference is entered with fewer tokens left than the one
around it, and references are nested at most as deep as there are tokens. The measure is the number
of tokens left, then the structure of the parser.

Parsers agree with themselves at all depths beyond that number (`Parser.agreesUpTo_eval_calls`), and
so they have one answer (`Parser.exists_ends_of_agreesUpTo`). What this says about whole grammars is
collected in `CommittedChoice.Proofs.GuardedGrammars`. -/

namespace CommittedChoice

variable {τ ω α : Type} {ρ : Type → Type} {ruler : Ruler τ}

namespace Parser

/-! ## Guarded parsers -/

/-- Every success of the parser has consumed. -/
def AlwaysConsuming (ruler : Ruler τ) (rules : Rules τ ρ ω) (p : Parser τ ρ ω α) : Prop :=
  ∀ depth copy, (p.eval ruler (calls ruler rules depth) copy).AlwaysConsumes

/-- References to rules stand only where they are allowed. If they are not allowed around a sequence,
    they are allowed in each component behind one that is in `guard`. -/
def Guarded (guard : (β : Type) → Parser τ ρ ω β → Prop) {α : Type} (p : Parser τ ρ ω α)
    (allowed : Prop) : Prop :=
  match p with
  | satisfy _ _ => True
  | spelled _ _ => True
  | endOfInput => True
  | fail _ => True
  | value _ => True
  | position => True
  | recursive _ _ _ => allowed
  | shared p => p.Guarded guard allowed
  | adapt _ p => p.Guarded guard allowed
  | map _ p => p.Guarded guard allowed
  | observe _ p => p.Guarded guard allowed
  | map2 _ p q => p.Guarded guard allowed ∧ q.Guarded guard (allowed ∨ guard _ p)
  | map3 _ p q r =>
      p.Guarded guard allowed ∧ q.Guarded guard (allowed ∨ guard _ p) ∧
        r.Guarded guard ((allowed ∨ guard _ p) ∨ guard _ q)
  | map4 _ p q r s =>
      p.Guarded guard allowed ∧ q.Guarded guard (allowed ∨ guard _ p) ∧
        r.Guarded guard ((allowed ∨ guard _ p) ∨ guard _ q) ∧
        s.Guarded guard (((allowed ∨ guard _ p) ∨ guard _ q) ∨ guard _ r)
  | all _ ps => ∀ i, (ps i).Guarded guard (allowed ∨ ∃ j, j < i ∧ guard _ (ps j))
  | bind _ p next => p.Guarded guard allowed ∧ ∀ v, (next v).Guarded guard (allowed ∨ guard _ p)
  | choice _ ps => ∀ i, (ps i).Guarded guard allowed
  | negate _ p => p.Guarded guard allowed
  | check _ _ p => p.Guarded guard allowed
  | withExpected _ p => p.Guarded guard allowed
  | lookahead p => p.Guarded guard allowed
  | safe p => p.Guarded guard allowed
  | chain _ _ _ p => p.Guarded guard allowed
  | separated _ p separator => p.Guarded guard allowed ∧ separator.Guarded guard allowed
  | optionallyTerminated _ p separator =>
      p.Guarded guard allowed ∧ separator.Guarded guard allowed

/-- The parser has no references to rules. -/
def RecursionFree (p : Parser τ ρ ω α) : Prop := p.Guarded (fun _ _ => False) False

theorem guarded_oneOf {guard : (β : Type) → Parser τ ρ ω β → Prop} {ps : List (Parser τ ρ ω α)}
    {allowed : Prop} (h : ∀ p ∈ ps, p.Guarded guard allowed) : (oneOf ps).Guarded guard allowed :=
  fun i => h _ (List.getElem_mem i.isLt)

theorem alwaysConsuming_satisfy (ruler : Ruler τ) (rules : Rules τ ρ ω) (accepts : τ → Bool)
    (expected : List (Expected τ)) : (satisfy accepts expected).AlwaysConsuming ruler rules :=
  fun _ _ => .satisfy accepts expected

/-- Where references are allowed, every parser may stand. -/
theorem guarded_of_allowed (guard : (β : Type) → Parser τ ρ ω β → Prop) (p : Parser τ ρ ω α)
    {allowed : Prop} (h : allowed) : p.Guarded guard allowed := by
  induction p generalizing allowed with
  | satisfy | spelled | endOfInput | fail | value | position => trivial
  | recursive => exact h
  | shared p ih | adapt f p ih | map f p ih | observe remark p ih => exact ih h
  | map2 f p q ihp ihq => exact ⟨ihp h, ihq (.inl h)⟩
  | map3 f p q r ihp ihq ihr => exact ⟨ihp h, ihq (.inl h), ihr (.inl (.inl h))⟩
  | map4 f p q r s ihp ihq ihr ihs =>
      exact ⟨ihp h, ihq (.inl h), ihr (.inl (.inl h)), ihs (.inl (.inl (.inl h)))⟩
  | all n ps ih => exact fun i => ih i (.inl h)
  | bind f p next ihp ihnext => exact ⟨ihp h, fun v => ihnext v (.inl h)⟩
  | choice n ps ih => exact fun i => ih i h
  | negate message p ih | check accepts message p ih | withExpected expected p ih => exact ih h
  | lookahead p ih | safe p ih | chain name seed combine p ih => exact ih h
  | separated name p separator ihp ihseparator => exact ⟨ihp h, ihseparator h⟩
  | optionallyTerminated name p separator ihp ihseparator => exact ⟨ihp h, ihseparator h⟩

/-! ## The meaning of a guarded parser -/

section Agreement

variable {rules : Rules τ ρ ω} {guard : (β : Type) → Parser τ ρ ω β → Prop} {depth depth' k : Nat}

/-- References that stand where they are allowed, or behind a part in `guard`, are entered with fewer
    than `k` tokens left, if `n` tokens are left before. -/
structure Entered (guard : (β : Type) → Parser τ ρ ω β → Prop) (k : Nat) (allowed : Prop)
    (n : Nat) : Prop where
  lt_of_allowed : allowed → n < k
  le_of_guard : ∀ (β : Type) (q : Parser τ ρ ω β), guard β q → n ≤ k

/-- Behind a part in `guard`, which has consumed, references are allowed. -/
theorem Entered.behind {allowed guarded : Prop} {n m : Nat} (h : Entered guard k allowed n)
    (hm : m ≤ n) (hguarded : guarded → m < n ∧ ∃ β q, guard β q) :
    Entered guard k (allowed ∨ guarded) m where
  lt_of_allowed := by
    rintro (hallowed | hg)
    · have := h.lt_of_allowed hallowed
      omega
    · obtain ⟨hlt, β, q, hq⟩ := hguarded hg
      have := h.le_of_guard β q hq
      omega
  le_of_guard := fun β q hq => Nat.le_trans hm (h.le_of_guard β q hq)

theorem Entered.behind_part {allowed : Prop} {n m : Nat} (h : Entered guard k allowed n)
    (hm : m ≤ n) {β : Type} (p : Parser τ ρ ω β) (hlt : guard β p → m < n) :
    Entered guard k (allowed ∨ guard β p) m :=
  h.behind hm fun hg => ⟨hlt hg, β, p, hg⟩

/-- If the rules agree at two depths with fewer than `k` tokens left, then so does a parser whose
    references are entered with fewer than `k` tokens left. -/
theorem agreesUpTo_eval
    (hcalls : ∀ m, m < k → ∀ (β : Type) (rule : ρ β) (copy : Nat),
      (calls ruler rules depth β rule copy).AgreesUpTo m (calls ruler rules depth' β rule copy))
    (hconsumes : ∀ (β : Type) (q : Parser τ ρ ω β), guard β q →
      ∀ copy, (q.eval ruler (calls ruler rules depth) copy).AlwaysConsumes)
    (p : Parser τ ρ ω α) {allowed : Prop} {n : Nat} (hentered : Entered guard k allowed n)
    (hp : p.Guarded guard allowed) (copy : Nat) :
    (p.eval ruler (calls ruler rules depth) copy).AgreesUpTo n
      (p.eval ruler (calls ruler rules depth') copy) := by
  have hmoves {β : Type} (q : Parser τ ρ ω β) (copy : Nat) :
      (q.eval ruler (calls ruler rules depth) copy).Moves ruler false :=
    moves_eval_calls ruler rules depth q copy
  induction p generalizing allowed n copy with
  | satisfy accepts expected => exact .of_finishes (.satisfy accepts expected)
  | spelled tests expected => exact .of_finishes (.spelled expected tests false)
  | endOfInput => exact .of_finishes (.endOfInput _)
  | fail message => exact .of_finishes (.fail _ none message false false)
  | value v => exact .of_finishes (.pure _)
  | position =>
      rw [eval_position, eval_position]
      exact .of_finishes (.bind (.of_still .getState) fun _ => .pure _)
  | recursive index sharing rule =>
      rw [eval_recursive, eval_recursive]
      -- resolving reads nothing, so the rule starts with the tokens that are left here
      exact .of_still (.resolve _ sharing) fun copy =>
        hcalls n (hentered.lt_of_allowed hp) _ rule copy
  | shared p ih => exact ih hentered hp 0
  | adapt f p ih =>
      rw [eval_adapt, eval_adapt]
      exact (ih hentered hp copy).map _
  | map f p ih =>
      rw [eval_map, eval_map]
      exact .component_last (ih hentered hp copy) (hmoves p copy) fun _ _ => .pure _
  | observe remark p ih =>
      rw [eval_observe, eval_observe]
      exact .component_last (ih hentered hp copy) (hmoves p copy) fun _ _ =>
        .bind (.of_still (.emit _)) fun _ => .pure _
  | map2 f p q ihp ihq =>
      rw [eval_map2, eval_map2]
      obtain ⟨hp, hq⟩ := hp
      refine .component (ihp hentered hp copy) (hmoves p copy) fun _ _ m hm hlt => ?_
      have hbehind := hentered.behind_part hm p fun hg => hlt (hconsumes _ p hg copy)
      exact .component_last (ihq hbehind hq copy) (hmoves q copy) fun _ _ => .pure _
  | map3 f p q r ihp ihq ihr =>
      rw [eval_map3, eval_map3]
      obtain ⟨hp, hq, hr⟩ := hp
      refine .component (ihp hentered hp copy) (hmoves p copy) fun _ _ m hm hlt => ?_
      have hbehind := hentered.behind_part hm p fun hg => hlt (hconsumes _ p hg copy)
      refine .component (ihq hbehind hq copy) (hmoves q copy) fun _ _ m hm hlt => ?_
      have hbehind := hbehind.behind_part hm q fun hg => hlt (hconsumes _ q hg copy)
      exact .component_last (ihr hbehind hr copy) (hmoves r copy) fun _ _ => .pure _
  | map4 f p q r s ihp ihq ihr ihs =>
      rw [eval_map4, eval_map4]
      obtain ⟨hp, hq, hr, hs⟩ := hp
      refine .component (ihp hentered hp copy) (hmoves p copy) fun _ _ m hm hlt => ?_
      have hbehind := hentered.behind_part hm p fun hg => hlt (hconsumes _ p hg copy)
      refine .component (ihq hbehind hq copy) (hmoves q copy) fun _ _ m hm hlt => ?_
      have hbehind := hbehind.behind_part hm q fun hg => hlt (hconsumes _ q hg copy)
      refine .component (ihr hbehind hr copy) (hmoves r copy) fun _ _ m hm hlt => ?_
      have hbehind := hbehind.behind_part hm r fun hg => hlt (hconsumes _ r hg copy)
      exact .component_last (ihs hbehind hs copy) (hmoves s copy) fun _ _ => .pure _
  | all size ps ih =>
      rw [eval_all, eval_all]
      refine .all (fun i => hmoves (ps i) copy) fun i m hm hlt => ?_
      refine ih i (hentered.behind hm ?_) (hp i) copy
      rintro ⟨j, hj, hgj⟩
      exact ⟨hlt ⟨j, hj, hconsumes _ (ps j) hgj copy⟩, _, ps j, hgj⟩
  | bind f p next ihp ihnext =>
      rw [eval_bind, eval_bind]
      obtain ⟨hp, hnext⟩ := hp
      refine .dependent (ihp hentered hp copy) (hmoves p copy) fun v m hm hlt => ?_
      have hbehind := hentered.behind_part hm p fun hg => hlt (hconsumes _ p hg copy)
      exact ihnext v hbehind (hnext v) copy
  | choice size ps ih =>
      rw [eval_choice, eval_choice]
      exact .choice (fun i => hmoves (ps i) copy) fun i => ih i hentered (hp i) copy
  | negate message p ih =>
      rw [eval_negate, eval_negate]
      exact .negate (ih hentered hp copy) (hmoves p copy)
  | check accepts message p ih =>
      rw [eval_check, eval_check]
      exact .check (ih hentered hp copy) (hmoves p copy)
  | withExpected expected p ih =>
      rw [eval_withExpected, eval_withExpected]
      exact .component_last (ih hentered hp copy) (hmoves p copy) fun _ _ => .pure _
  | lookahead p ih => exact .lookahead (ih hentered hp copy)
  | safe p ih => exact .safe (ih hentered hp copy)
  | chain name seed combine p ih => exact .chain (ih hentered hp copy) (hmoves p copy)
  | separated name p separator ihp ihseparator =>
      obtain ⟨hp, hseparator⟩ := hp
      exact .separated (ihp hentered hp copy) (hmoves p copy)
        (ihseparator hentered hseparator copy) (hmoves separator copy)
  | optionallyTerminated name p separator ihp ihseparator =>
      obtain ⟨hp, hseparator⟩ := hp
      exact .optionallyTerminated (ihp hentered hp copy) (hmoves p copy)
        (ihseparator hentered hseparator copy) (hmoves separator copy)

/-- The rules of a guarded grammar do not run out of depth with fewer tokens left than the depth, and
    more depth changes nothing. -/
theorem agreesUpTo_calls
    (hrules : ∀ (β : Type) (rule : ρ β),
      (rules β rule).Guarded (fun _ q => q.AlwaysConsuming ruler rules) False)
    {n : Nat} (hn : n < depth) (hdepth : depth ≤ depth') {β : Type} (rule : ρ β) (copy : Nat) :
    (calls ruler rules depth β rule copy).AgreesUpTo n (calls ruler rules depth' β rule copy) := by
  induction depth generalizing depth' n β copy with
  | zero => exact absurd hn (Nat.not_lt_zero n)
  | succ depth ih =>
      obtain ⟨depth', rfl⟩ : ∃ d, depth' = d + 1 := ⟨depth' - 1, by omega⟩
      -- the body is entered with at most `depth` tokens left, its references with fewer
      refine agreesUpTo_eval (fun m hm _ rule copy => ih hm (by omega) rule copy)
        (fun _ q hq copy => hq depth copy) (rules β rule) ⟨False.elim, fun _ _ _ => by omega⟩
        (hrules β rule) copy

theorem agreesUpTo_eval_calls
    (hrules : ∀ (β : Type) (rule : ρ β),
      (rules β rule).Guarded (fun _ q => q.AlwaysConsuming ruler rules) False)
    {n : Nat} (hn : n < depth) (hdepth : depth ≤ depth') (p : Parser τ ρ ω α) (copy : Nat) :
    (p.eval ruler (calls ruler rules depth) copy).AgreesUpTo n
      (p.eval ruler (calls ruler rules depth') copy) :=
  agreesUpTo_eval (k := depth)
    (fun _ hm _ rule copy => agreesUpTo_calls hrules hm hdepth rule copy)
    (fun _ _ => False.elim) p ⟨fun _ => hn, fun _ _ => False.elim⟩
    (p.guarded_of_allowed _ trivial) copy

/-- A parser without references does not depend on the depth. -/
theorem RecursionFree.agreesUpTo_eval_calls {p : Parser τ ρ ω α} (hp : p.RecursionFree)
    (ruler : Ruler τ) (rules : Rules τ ρ ω) (depth depth' n copy : Nat) :
    (p.eval ruler (calls ruler rules depth) copy).AgreesUpTo n
      (p.eval ruler (calls ruler rules depth') copy) :=
  agreesUpTo_eval (k := 0) (fun m hm => absurd hm (Nat.not_lt_zero m))
    (fun _ _ => False.elim) p ⟨False.elim, fun _ _ => False.elim⟩ hp copy

end Agreement

/-! ## Ending -/

/-- The ways in which a parse that started at `w` can end: with an outcome, with a fault of the
    grammar, or with an overflow, if the ruler has no position behind some of the tokens left. -/
def Ends (ruler : Ruler τ) (w : World τ ω) (r : Except Stop (Outcome α)) : Prop :=
  (∃ outcome, r = .ok outcome) ∨ (∃ error, r = .error (.fault error)) ∨
    r = .error .overflow ∧
      ∃ ts, ts <+: w.state.place.rest ∧ ruler.positionAfter w.state.position ts = none

theorem ends_of_moves {x : Run τ ω (Outcome α)} (hx : x.Moves ruler false) {w : World τ ω}
    (hfinish : (x.run w).1 ≠ .error .unfinished) : Ends ruler w (x.run w).1 := by
  rcases hrun : x.run w with ⟨stop | outcome, w'⟩
  · cases stop with
    | fault error => exact .inr (.inl ⟨error, rfl⟩)
    | overflow =>
        obtain ⟨ts, hpass, -, hstuck⟩ := hx hrun
        exact .inr (.inr ⟨rfl, hpass.exists_positionAfter_eq_none (hstuck rfl)⟩)
    | unfinished =>
        rw [hrun] at hfinish
        exact absurd rfl hfinish
  · exact .inl ⟨outcome, rfl⟩

/-- A parser that agrees with itself at all greater depths has one answer. -/
theorem exists_ends_of_agreesUpTo {rules : Rules τ ρ ω} {p : Parser τ ρ ω α} {copy : Nat}
    {w : World τ ω} (depth : Nat)
    (h : ∀ depth', depth ≤ depth' → (p.eval ruler (calls ruler rules depth) copy).AgreesUpTo
      w.state.place.rest.length (p.eval ruler (calls ruler rules depth') copy)) :
    ∃ r w', Ends ruler w r ∧ ∀ depth', depth ≤ depth' →
      (p.eval ruler (calls ruler rules depth') copy).run w = (r, w') := by
  have hfinish := (h depth (Nat.le_refl depth) w (Nat.le_refl _)).1
  have hends := ends_of_moves (moves_eval_calls ruler rules depth p copy) hfinish
  exact ⟨_, _, hends, fun depth' hdepth => (h depth' hdepth w (Nat.le_refl _)).2⟩

/-! ## Nested parentheses -/

/-- The rule of parentheses around nothing or around parentheses, which counts them. -/
inductive Nesting : Type → Type where
  | depth : Nesting Nat

/-- The rules of nested parentheses. -/
def Nesting.rules : Rules Char Nesting Unit
  | _, .depth =>
      orElse (map3 (fun _ n _ => n + 1) (token '(') (recursive 0 .fresh .depth) (token ')')) (value 0)

/-- The reference of the nested parentheses is guarded by the opening one. -/
theorem Nesting.guarded (ruler : Ruler Char) (β : Type) (rule : Nesting β) :
    (Nesting.rules β rule).Guarded (fun _ q => q.AlwaysConsuming ruler Nesting.rules) False := by
  cases rule
  refine guarded_oneOf fun p hp => ?_
  simp only [List.mem_cons, List.not_mem_nil, or_false] at hp
  rcases hp with rfl | rfl
  · exact ⟨trivial, .inr (alwaysConsuming_satisfy _ _ _ _), trivial⟩
  · trivial

end Parser

end CommittedChoice
