import CommittedChoice.Proofs.ListEndings

set_option autoImplicit false

/-! # Termination of guarded grammars

There are three ways in which a parse could go on for ever, and `Parser.exists_ends_of_guarded` says
of each that it does not.

*Binders.* A binder gives a description, and descriptions are finitely built: on the way from a
parser to its parts and to what its binders give there is no infinite descent
(`Parser.wellFounded_hasPart`). This holds by the type of parsers. A binder that builds its own
parser again has no description of this type; a grammar says the same with a reference to a rule,
and then the reference has to be guarded. Without it there would be nothing to stop the parser: any
number of its unfoldings only hands on to what stands behind them (`Parser.eval_unfolding`).

*References.* In a guarded grammar they are nested at most as deep as there are tokens.

*Loops.* A value that a loop adds to its first one comes from a round that has read a token. So a
loop has collected at most one value more than the tokens that it has passed, however it ends
(`Run.Gathers.length_le`). -/

namespace CommittedChoice

variable {τ ω α β γ : Type} {ρ : Type → Type} {ruler : Ruler τ}

/-! ## Parsers are finitely built -/

namespace Parser

/-- `part` is a direct part of the parser, or what its binder gives for some value. -/
def HasPart {α : Type} (p : Parser τ ρ ω α) (part : (β : Type) × Parser τ ρ ω β) : Prop :=
  match p with
  | satisfy _ _ => False
  | spelled _ _ => False
  | endOfInput => False
  | fail _ => False
  | value _ => False
  | position => False
  | recursive _ _ _ => False
  | shared p => part = ⟨_, p⟩
  | adapt _ p => part = ⟨_, p⟩
  | map _ p => part = ⟨_, p⟩
  | observe _ p => part = ⟨_, p⟩
  | map2 _ p q => part = ⟨_, p⟩ ∨ part = ⟨_, q⟩
  | map3 _ p q r => part = ⟨_, p⟩ ∨ part = ⟨_, q⟩ ∨ part = ⟨_, r⟩
  | map4 _ p q r s => part = ⟨_, p⟩ ∨ part = ⟨_, q⟩ ∨ part = ⟨_, r⟩ ∨ part = ⟨_, s⟩
  | all _ ps => ∃ i, part = ⟨_, ps i⟩
  | bind _ p next => part = ⟨_, p⟩ ∨ ∃ v, part = ⟨_, next v⟩
  | choice _ ps => ∃ i, part = ⟨_, ps i⟩
  | negate _ p => part = ⟨_, p⟩
  | check _ _ p => part = ⟨_, p⟩
  | withExpected _ p => part = ⟨_, p⟩
  | lookahead p => part = ⟨_, p⟩
  | safe p => part = ⟨_, p⟩
  | chain _ _ _ p => part = ⟨_, p⟩
  | separated _ p separator => part = ⟨_, p⟩ ∨ part = ⟨_, separator⟩
  | optionallyTerminated _ p separator => part = ⟨_, p⟩ ∨ part = ⟨_, separator⟩

theorem acc_hasPart (p : Parser τ ρ ω α) :
    Acc (fun part whole : (β : Type) × Parser τ ρ ω β => whole.2.HasPart part) ⟨α, p⟩ := by
  induction p with
  | satisfy | spelled | endOfInput | fail | value | position | recursive =>
      exact ⟨_, fun _ h => h.elim⟩
  | shared p ih | adapt f p ih | map f p ih | observe remark p ih | negate message p ih
  | check accepts message p ih | withExpected expected p ih | lookahead p ih | safe p ih
  | chain name seed combine p ih => exact ⟨_, fun _ h => h ▸ ih⟩
  | map2 f p q ihp ihq =>
      refine ⟨_, ?_⟩
      rintro _ (rfl | rfl)
      · exact ihp
      · exact ihq
  | map3 f p q r ihp ihq ihr =>
      refine ⟨_, ?_⟩
      rintro _ (rfl | rfl | rfl)
      · exact ihp
      · exact ihq
      · exact ihr
  | map4 f p q r s ihp ihq ihr ihs =>
      refine ⟨_, ?_⟩
      rintro _ (rfl | rfl | rfl | rfl)
      · exact ihp
      · exact ihq
      · exact ihr
      · exact ihs
  | all size ps ih | choice size ps ih =>
      refine ⟨_, ?_⟩
      rintro _ ⟨i, rfl⟩
      exact ih i
  | bind f p next ihp ihnext =>
      refine ⟨_, ?_⟩
      rintro _ (rfl | ⟨v, rfl⟩)
      · exact ihp
      · exact ihnext v
  | separated name p separator ihp ihseparator
  | optionallyTerminated name p separator ihp ihseparator =>
      refine ⟨_, ?_⟩
      rintro _ (rfl | rfl)
      · exact ihp
      · exact ihseparator

/-- From a parser to its parts and to what its binders give there is no infinite descent. -/
theorem wellFounded_hasPart :
    WellFounded fun part whole : (β : Type) × Parser τ ρ ω β => whole.2.HasPart part :=
  ⟨fun whole => acc_hasPart whole.2⟩

/-- `n` binders that read nothing, the last of which gives `p` and each other one the next. This is
    what `n` unfoldings would make of a parser whose binder builds the same parser again. -/
def unfolding (p : Parser τ ρ ω α) : Nat → Parser τ ρ ω α
  | 0 => p
  | n + 1 => bind (fun _ v => v) unit fun _ => unfolding p n

theorem eval_unfolding (ruler : Ruler τ) (call : Calls τ ρ ω) (copy : Nat) (p : Parser τ ρ ω α)
    (n : Nat) : (unfolding p n).eval ruler call copy = p.eval ruler call copy := by
  induction n with
  | zero => rfl
  | succ n ih =>
      rw [unfolding, eval_bind, ih]
      ext w : 2
      show (p.eval ruler call copy >>= fun outcome =>
        pure ((outcome.map fun v => v).after false)).run w = _
      rcases hrun : (p.eval ruler call copy).run w with ⟨_ | ⟨v, c⟩ | c, w'⟩
      · rw [Run.run_bind_of_error hrun]
      · rw [Run.run_bind_of_ok hrun]
        simp [Outcome.map, Outcome.after]
      · rw [Run.run_bind_of_ok hrun]
        simp [Outcome.map, Outcome.after]

end Parser

/-! ## What a loop has collected -/

namespace Run

/-- A loop of values `x` with separators `y` that starts at `w` has collected `vs` when it ends at a
    place: nothing if it has no first value, or else a row that the attempt behind it does not
    prolong. It does not matter how the loop ends. A chain is a loop with separators that read
    nothing. -/
inductive Gathers (x : Run τ ω (Outcome α)) (y : Run τ ω (Outcome β)) (w : World τ ω) :
    List α → Place τ → Prop where
  | nothing {r : Except Stop (Outcome α)} {u : World τ ω} (hfirst : x.run w = (r, u))
      (hr : ∀ v c, r ≠ .ok (.success v c)) : Gathers x y w [] u.state.place
  | row {vs : List α} {c : Bool} {e : Ending} {u u' : World τ ω} (hrow : Row x y w vs c u)
      (hend : Behind x y u e u') : Gathers x y w vs u'.state.place

variable {x : Run τ ω (Outcome α)} {y : Run τ ω (Outcome β)} {w u u' w' : World τ ω}
  {vs us : List α} {c : Bool} {e : Ending}

/-- The first value may come without a token, and each other one has one. -/
theorem Row.length_le (hx : x.Moves ruler false) (hy : y.Moves ruler false) (h : Row x y w vs c u) :
    vs.length + u.state.place.rest.length ≤ w.state.place.rest.length + 1 := by
  induction h with
  | first hvalue =>
      have hle := hx.length_rest_le hvalue
      rw [List.length_singleton]
      omega
  | next _ hseparator hvalue hconsumed ih =>
      have hlt := hy.length_rest_lt_of_or hx hseparator hvalue hconsumed
      rw [List.length_append, List.length_singleton]
      omega

theorem Behind.length_rest_le (hx : x.Moves ruler false) (hy : y.Moves ruler false)
    (h : Behind x y u e u') : u'.state.place.rest.length ≤ u.state.place.rest.length := by
  cases h with
  | absent hseparator | brokenSeparator hseparator | stoppedSeparator hseparator =>
      exact hy.length_rest_le hseparator
  | idle hseparator hvalue | dangling hseparator hvalue | brokenValue hseparator hvalue
  | stoppedValue hseparator hvalue | looped hseparator hvalue =>
      exact Nat.le_trans (hx.length_rest_le hvalue) (hy.length_rest_le hseparator)

theorem Gathers.length_le (hx : x.Moves ruler false) (hy : y.Moves ruler false) {q : Place τ}
    (h : Gathers x y w vs q) : vs.length + q.rest.length ≤ w.state.place.rest.length + 1 := by
  cases h with
  | nothing hfirst =>
      have hle := hx.length_rest_le hfirst
      rw [List.length_nil]
      omega
  | row hrow hend =>
      have hlength := hrow.length_le hx hy
      have hle := hend.length_rest_le hx hy
      omega

theorem Gathers.exists_passes (hx : x.Moves ruler false) (hy : y.Moves ruler false)
    {z : Run τ ω (Outcome γ)} (hz : z.Moves ruler false) {r : Except Stop (Outcome γ)}
    (hrun : z.run w = (r, w')) (h : Gathers x y w vs w'.state.place) :
    ∃ ts, w.state.place.Passes ruler ts w'.state.place ∧ vs.length ≤ ts.length + 1 := by
  obtain ⟨ts, hpass, -, -⟩ := hz hrun
  have hle := h.length_le hx hy
  have hlength := hpass.length_rest
  exact ⟨ts, hpass, by omega⟩

/-! ### Lists -/

/-- A loop that goes through the row of its values gathers them. -/
theorem exists_gathers_of_list {z : Run τ ω (Outcome (List α))} (hx : x.Moves ruler false)
    (hy : y.Moves ruler false)
    (hstop : ∀ reason w₁, x.run w = (.error reason, w₁) → z.run w = (.error reason, w₁))
    (hfail : ∀ c w₁, x.run w = (.ok (.failure c), w₁) → z.run w = (.ok (.failure c), w₁))
    (hlist : ∀ vs c u e u', Row x y w vs c u → Behind x y u e u' →
      ∃ r w', z.run w = (r, w') ∧ w'.Coincides u' ∧ ∀ us c, r = .ok (.success us c) → us = vs)
    {r : Except Stop (Outcome (List α))} (hrun : z.run w = (r, w')) :
    ∃ vs, Gathers x y w vs w'.state.place ∧ ∀ us c, r = .ok (.success us c) → us = vs := by
  rcases hfirst : x.run w with ⟨reason | ⟨v, c⟩ | c, w₁⟩
  · rw [hstop reason w₁ hfirst] at hrun
    cases hrun
    exact ⟨[], .nothing hfirst nofun, nofun⟩
  · obtain ⟨vs, c, u, e, u', hrow, hend⟩ := (Row.first hfirst).exists_behind hx hy
    obtain ⟨r', w₂, hrun', hcoincides, hvalue⟩ := hlist vs c u e u' hrow hend
    obtain ⟨rfl, rfl⟩ := Prod.mk.inj (hrun'.symm.trans hrun)
    refine ⟨vs, ?_, hvalue⟩
    rw [hcoincides.place]
    exact .row hrow hend
  · rw [hfail c w₁ hfirst] at hrun
    cases hrun
    exact ⟨[], .nothing hfirst nofun, nofun⟩

theorem exists_gathers_of_separated (hx : x.Moves ruler false) (hy : y.Moves ruler false)
    {name : String} {expected : List (Expected τ)} {r : Except Stop (Outcome (List α))}
    (hrun : (separated name expected x y).run w = (r, w')) :
    ∃ vs, Gathers x y w vs w'.state.place ∧ ∀ us c, r = .ok (.success us c) → us = vs := by
  refine exists_gathers_of_list hx hy (fun _ _ => run_bind_of_error) (fun _ _ => run_bind_of_ok) ?_
    hrun
  intro vs c u e u' hrow hend
  obtain ⟨w₂, hlist, hcoincides⟩ := hrow.exists_run_separated hx hy hend name expected
  refine ⟨_, w₂, hlist, hcoincides, ?_⟩
  rintro us c' hr
  cases e with
  | done =>
      cases hr
      rfl
  | dangling | broken | stopped | looped => cases hr

theorem exists_gathers_of_optionallyTerminated (hx : x.Moves ruler false)
    (hy : y.Moves ruler false) {name : String} {r : Except Stop (Outcome (List α))}
    (hrun : (optionallyTerminated name x y).run w = (r, w')) :
    ∃ vs, Gathers x y w vs w'.state.place ∧ ∀ us c, r = .ok (.success us c) → us = vs := by
  refine exists_gathers_of_list hx hy (fun _ _ => run_bind_of_error) (fun _ _ => run_bind_of_ok) ?_
    hrun
  intro vs c u e u' hrow hend
  obtain ⟨w₂, hlist, hcoincides⟩ := hrow.exists_run_optionallyTerminated hx hy hend name
  refine ⟨_, w₂, hlist, hcoincides, ?_⟩
  rintro us c' hr
  cases e with
  | done | dangling =>
      cases hr
      rfl
  | broken | stopped | looped => cases hr

/-! ### Chains -/

section Chain

variable {b : β} (hidle : ∀ u, y.run u = (.ok (.success b false), u))
include hidle

theorem Row.exists_append_repeats {w₁ : World τ ω} (hrow : Row x y w us c w₁)
    (h : x.Repeats w₁ vs u) : ∃ c', Row x y w (us ++ vs) c' u := by
  induction h generalizing us c with
  | nil w₁ => exact ⟨c, (List.append_nil us).symm ▸ hrow⟩
  | @cons w₁ w₂ u v vs hrun _ ih =>
      obtain ⟨c', hmore⟩ := ih (.next hrow (hidle w₁) hrun rfl)
      rw [List.append_assoc] at hmore
      exact ⟨c', hmore⟩

theorem Repeats.exists_row (h : x.Repeats w vs u) (hvs : vs ≠ []) : ∃ c, Row x y w vs c u := by
  cases h with
  | nil => exact absurd rfl hvs
  | cons hrun hrest => exact Row.exists_append_repeats hidle (.first hrun) hrest

/-- A chain whose next attempt does not succeed. -/
theorem Repeats.gathers (h : x.Repeats w vs u) {r : Except Stop (Outcome α)}
    (hlast : x.run u = (r, u')) (hr : ∀ v c, r ≠ .ok (.success v c)) :
    Gathers x y w vs u'.state.place := by
  by_cases hvs : vs = []
  · subst hvs
    cases h
    exact .nothing hlast hr
  · obtain ⟨c, hrow⟩ := h.exists_row hidle hvs
    rcases r with reason | ⟨v, c⟩ | _ | _
    · exact .row hrow (.stoppedValue (hidle u) hlast)
    · exact absurd rfl (hr v c)
    · exact .row hrow (.idle (hidle u) hlast)
    · exact .row hrow (.brokenValue (hidle u) hlast)

theorem ChainEnds.exists_gathers {name : String} {seed : γ} {combine : γ → α → γ}
    {r : Except Stop (Outcome γ)} (h : ChainEnds name seed combine x w r w') :
    ∃ vs, Gathers x y w vs w'.state.place ∧
      ∀ b c, r = .ok (.success b c) → b = vs.foldl combine seed := by
  cases h with
  | @ended vs u u' _ hrepeats hlast =>
      have hgathers : Gathers x y w vs u'.state.place := hrepeats.gathers hidle hlast nofun
      refine ⟨vs, hgathers, ?_⟩
      rintro b c ⟨⟩
      rfl
  | missing hfirst => exact ⟨[], .nothing hfirst nofun, nofun⟩
  | @broken vs _ _ hrepeats hlast => exact ⟨vs, hrepeats.gathers hidle hlast nofun, nofun⟩
  | @stopped vs _ _ _ hrepeats hlast => exact ⟨vs, hrepeats.gathers hidle hlast nofun, nofun⟩
  | @looped vs u u₁ u₂ v hrepeats hlast hfound =>
      rcases hfound with ⟨hvs, rfl⟩ | ⟨rfl, hagain⟩
      · obtain ⟨c, hrow⟩ := hrepeats.exists_row hidle hvs
        have hgathers : Gathers x y w vs u₂.state.place := .row hrow (.looped (hidle u) hlast)
        exact ⟨vs, hgathers, nofun⟩
      · -- the first value is kept although it came without a token
        cases hrepeats
        have hgathers : Gathers x y w [v] u₂.state.place :=
          .row (.first hlast) (.looped (hidle u₁) hagain)
        exact ⟨[v], hgathers, nofun⟩

end Chain

end Run

/-! ## Guarded grammars -/

namespace Parser

/-- **Guarded grammars terminate.** Parsers are finitely built, what their binders give included.

    If every rule is guarded, then a parser that refers to the rules in any way ends, and its answer
    is the same at every depth beyond the number of tokens left. A parser without references ends at
    every depth.

    However a loop ends, it has collected at most one value more than the tokens that it has passed.
    If it succeeds, then its value is made of these. -/
theorem exists_ends_of_guarded (ruler : Ruler τ) (rules : Rules τ ρ ω) :
    (WellFounded fun part whole : (β : Type) × Parser τ ρ ω β => whole.2.HasPart part) ∧
    ((∀ (β : Type) (rule : ρ β),
        (rules β rule).Guarded (fun _ q => q.AlwaysConsuming ruler rules) False) →
      ∀ {α : Type} (p : Parser τ ρ ω α) (copy : Nat) (w : World τ ω), ∃ r w', Ends ruler w r ∧
        ∀ depth, w.state.place.rest.length < depth →
          (p.eval ruler (calls ruler rules depth) copy).run w = (r, w')) ∧
    (∀ {α : Type} (p : Parser τ ρ ω α), p.RecursionFree → ∀ (copy : Nat) (w : World τ ω),
      ∃ r w', Ends ruler w r ∧
        ∀ depth, (p.eval ruler (calls ruler rules depth) copy).run w = (r, w')) ∧
    ∀ {α β γ : Type} (p : Parser τ ρ ω α) (separator : Parser τ ρ ω γ) (name : String)
        (depth copy : Nat) (w w' : World τ ω),
      let x := p.eval ruler (calls ruler rules depth) copy
      let y := separator.eval ruler (calls ruler rules depth) copy
      let idle := (unit : Parser τ ρ ω Unit).eval ruler (calls ruler rules depth) copy
      (∀ (seed : β) (combine : β → α → β) (r : Except Stop (Outcome β)),
        ((chain name seed combine p).eval ruler (calls ruler rules depth) copy).run w = (r, w') →
        ∃ vs ts, x.Gathers idle w vs w'.state.place ∧
          w.state.place.Passes ruler ts w'.state.place ∧ vs.length ≤ ts.length + 1 ∧
          ∀ b c, r = .ok (.success b c) → b = vs.foldl combine seed) ∧
      (∀ r : Except Stop (Outcome (List α)),
        ((separated name p separator).eval ruler (calls ruler rules depth) copy).run w = (r, w') →
        ∃ vs ts, x.Gathers y w vs w'.state.place ∧
          w.state.place.Passes ruler ts w'.state.place ∧ vs.length ≤ ts.length + 1 ∧
          ∀ us c, r = .ok (.success us c) → us = vs) ∧
      (∀ r : Except Stop (Outcome (List α)),
        ((optionallyTerminated name p separator).eval ruler (calls ruler rules depth) copy).run w =
          (r, w') →
        ∃ vs ts, x.Gathers y w vs w'.state.place ∧
          w.state.place.Passes ruler ts w'.state.place ∧ vs.length ≤ ts.length + 1 ∧
          ∀ us c, r = .ok (.success us c) → us = vs) := by
  refine ⟨wellFounded_hasPart, fun hrules α p copy w => ?_, fun p hp copy w => ?_,
    fun p separator name depth copy w w' => ?_⟩
  · -- one reference more than tokens are left cannot be nested
    exact exists_ends_of_agreesUpTo (w.state.place.rest.length + 1) fun depth' hdepth =>
      agreesUpTo_eval_calls hrules (Nat.lt_succ_self _) hdepth p copy
  · obtain ⟨r, w', hends, hsame⟩ := exists_ends_of_agreesUpTo (w := w) 0 fun depth' _ =>
      hp.agreesUpTo_eval_calls ruler rules 0 depth' _ copy
    exact ⟨r, w', hends, fun depth => hsame depth (Nat.zero_le depth)⟩
  · intro x y idle
    have hmoves {δ : Type} (q : Parser τ ρ ω δ) :
        (q.eval ruler (calls ruler rules depth) copy).Moves ruler false :=
      moves_eval_calls ruler rules depth q copy
    refine ⟨fun seed combine r hrun => ?_, fun r hrun => ?_, fun r hrun => ?_⟩
    · have hcouples : x.Couples (Coupling.byPlace ω ruler) False x :=
        couples_eval_calls (Coupling.byPlace ω ruler) rules depth p (fun _ => rfl) False
      have hends := (Run.chain_run_iff (hmoves p) hcouples).1 hrun
      obtain ⟨vs, hgathers, hvalue⟩ := hends.exists_gathers (y := idle) fun _ => rfl
      obtain ⟨ts, hpass, hle⟩ := hgathers.exists_passes (hmoves p) (hmoves unit) (hmoves _) hrun
      exact ⟨vs, ts, hgathers, hpass, hle, hvalue⟩
    · obtain ⟨vs, hgathers, hvalue⟩ :=
        Run.exists_gathers_of_separated (hmoves p) (hmoves separator) hrun
      obtain ⟨ts, hpass, hle⟩ :=
        hgathers.exists_passes (hmoves p) (hmoves separator) (hmoves _) hrun
      exact ⟨vs, ts, hgathers, hpass, hle, hvalue⟩
    · obtain ⟨vs, hgathers, hvalue⟩ :=
        Run.exists_gathers_of_optionallyTerminated (hmoves p) (hmoves separator) hrun
      obtain ⟨ts, hpass, hle⟩ :=
        hgathers.exists_passes (hmoves p) (hmoves separator) (hmoves _) hrun
      exact ⟨vs, ts, hgathers, hpass, hle, hvalue⟩

/-- Nested parentheses are guarded, and four tokens have one answer at every depth beyond four. -/
theorem exists_ends_nesting :
    let ruler := Ruler.ofString (TextLayout.next {})
    let w : World Char Unit := ⟨State.initial Position.first ['(', '(', ')', ')'], [], .empty⟩
    (∀ (β : Type) (rule : Nesting β), (Nesting.rules β rule).Guarded
      (fun _ q => q.AlwaysConsuming ruler Nesting.rules) False) ∧
    ∃ w', ∀ depth, 4 < depth →
      ((Nesting.rules Nat .depth).eval ruler (calls ruler Nesting.rules depth) 0).run w =
        (.ok (.success 2 true), w') := by
  intro ruler w
  obtain ⟨r, w', -, hsame⟩ := (exists_ends_of_guarded ruler Nesting.rules).2.1
    (Nesting.guarded ruler) (Nesting.rules Nat .depth) 0 w
  have hr : r = .ok (.success 2 true) := (congrArg Prod.fst (hsame 5 (by decide))).symm
  refine ⟨Nesting.guarded ruler, w', fun depth hdepth => ?_⟩
  rw [hsame depth hdepth, hr]

/-- Neither parser refers to a rule. A token at the last column cannot be read, because there is no
    column behind it. And of a parser whose binder builds it again, no number of unfoldings has an
    answer of its own: the answer is that of whatever stands behind them. -/
theorem neither_outcome_nor_fault :
    let ruler := Ruler.ofString (TextLayout.next {})
    let rules : Rules Char (fun _ => Empty) Unit := fun _ => Empty.elim
    (let p : Parser Char (fun _ => Empty) Unit Char := anyToken
      let w : World Char Unit := ⟨State.initial ⟨1, Position.maxCoordinate⟩ ['a'], [], .empty⟩
      p.RecursionFree ∧ ∀ depth, ¬ ∃ r w',
        (p.eval ruler (calls ruler rules depth) 0).run w = (r, w') ∧
          ((∃ outcome, r = .ok outcome) ∨ ∃ error, r = .error (.fault error))) ∧
    (let w : World Char Unit := ⟨State.initial Position.first [], [], .empty⟩
      ∀ depth n, ¬ ∃ r, ∀ p : Parser Char (fun _ => Empty) Unit Unit, p.RecursionFree →
        (((unfolding p n).eval ruler (calls ruler rules depth) 0).run w).1 = r) := by
  intro ruler rules
  refine ⟨?_, ?_⟩
  · intro p w
    refine ⟨trivial, fun depth => ?_⟩
    rintro ⟨r, w', hrun, hr⟩
    have hoverflow : (p.eval ruler (calls ruler rules depth) 0).run w = (.error .overflow, _) := rfl
    rw [hoverflow] at hrun
    obtain ⟨rfl, -⟩ := Prod.mk.inj hrun
    rcases hr with ⟨_, h⟩ | ⟨_, h⟩ <;> cases h
  · intro w depth n
    rintro ⟨r, hr⟩
    -- a success and a failure stand behind the same unfoldings
    have hsuccess := hr unit trivial
    have hfailure := hr (fail "") trivial
    rw [eval_unfolding] at hsuccess hfailure
    cases hsuccess.trans hfailure.symm

end Parser

end CommittedChoice
