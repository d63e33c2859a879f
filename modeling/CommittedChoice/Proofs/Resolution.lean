import Mathlib.Data.List.Nodup
import CommittedChoice.Proofs.Compositional
import CommittedChoice.Proofs.Noninterference
import CommittedChoice.Proofs.Termination

set_option autoImplicit false

/-! # Resolving recursive parsers

Which recursive parsers are resolved is the only thing that outlives a parse. It depends on the inputs
seen so far, on branches that were given up and on parses that failed, and with copies of its own, a
reference brings new recursive parsers with it. All this cannot be seen in what a parser reads and
reports: a parser that was used before parses like one that is used for the first time, and it does
not matter which references share their copy. The log of the references themselves says that each of
them is resolved at most once.

Both are about one parser that parses inputs in turn (`Grammar.session`). The first is an instance of
two parses side by side (`Coupling.upToResolving`), the second follows from what single steps do
(`Run.stepwise_resolves`). The main statement is `Parser.session_visible_eq`. -/

namespace CommittedChoice

variable {τ ω α : Type} {ρ : Type → Type}

/-! ## Parsing again and again -/

/-- The recursive parser that an event resolves. -/
def Event.resolving? : Event ω → Option Cell
  | resolving cell => some cell
  | _ => none

namespace Transcript

/-- The recursive parsers that were resolved during a parse, in order. -/
def resolved (t : Transcript τ ω α) : List Cell := t.events.filterMap Event.resolving?

/-- What a parse shows: its result and its reports, but not what was resolved. -/
def visible (t : Transcript τ ω α) : Except Stop (ParseResult τ α) × List (Event ω) :=
  (t.result, t.events.filter (·.resolving?.isNone))

end Transcript

namespace Grammar

/-- Parses inputs in turn with one parser. What one parse resolved, the next one finds resolved. -/
def session (grammar : Grammar τ ρ ω) (p : Parser τ ρ ω α) :
    Cells → List (Input τ) → List (Transcript τ ω α)
  | _, [] => []
  | cells, input :: inputs =>
      let t := input.parse grammar p cells
      t :: session grammar p t.cells inputs

/-- The recursive parsers that are resolved after inputs were parsed in turn. -/
def cellsAfter (grammar : Grammar τ ρ ω) (p : Parser τ ρ ω α) (cells : Cells)
    (inputs : List (Input τ)) : Cells :=
  inputs.foldl (fun cells input => (input.parse grammar p cells).cells) cells

end Grammar

/-! ## What does not depend on it -/

/-- Two parses of the same input that may have resolved different recursive parsers. All events are
    compared but those of resolving. -/
def Coupling.upToResolving (ω : Type) (ruler : Ruler τ) : Coupling τ ω :=
  { byPlace ω ruler with
    shown := fun event => event.resolving?.isNone
    sameCells_of_shown := nofun }

theorem Coupling.respects_upToResolving (ruler : Ruler τ) :
    (upToResolving ω ruler).Respects .upToSharing :=
  ⟨False.elim, fun _ => trivial, fun _ => trivial⟩

namespace Parser

/-- One parse shows the same, whatever is resolved before and whichever references share their
    copy. -/
theorem visible_parse_eq {grammar grammar' : Grammar τ ρ ω} (hsize : grammar.size = grammar'.size)
    (hrules : ∀ (β : Type) (rule : ρ β),
      (grammar.rules β rule).Alike .upToSharing (grammar'.rules β rule))
    {p p' : Parser τ ρ ω α} (hp : p.Alike .upToSharing p') (input : Input τ)
    (cells cells' : Cells) :
    (input.parse grammar p cells).visible = (input.parse grammar' p' cells').visible := by
  -- with as many rules, references may be nested as deep
  have hdepth : grammar.depth input.tokens.length = grammar'.depth input.tokens.length := by
    simp only [Grammar.depth, hsize]
  have hrelates : (p.parse input.ruler grammar.rules (grammar.depth input.tokens.length)).Relates
      (Coupling.upToResolving ω input.ruler) .upToSharing True
      (p'.parse input.ruler grammar'.rules (grammar'.depth input.tokens.length)) := by
    rw [← hdepth]
    exact relates_eval_calls (Coupling.respects_upToResolving input.ruler) hrules _ hp
      False.elim True
  have hstart : (Coupling.upToResolving ω input.ruler).JoinsAlike .upToSharing True
      ⟨input.initialState, [], cells⟩ ⟨input.initialState, [], cells'⟩ :=
    ⟨rfl, rfl, False.elim, fun _ => .refl _ _⟩
  obtain ⟨r, r', v, v', hrun, hrun', hr, hjoins⟩ := hrelates hstart
  obtain rfl := hr.eq trivial
  have hplace : v.state.place = v'.state.place := hjoins.place
  have herror : v.state.error = v'.state.error :=
    (hjoins.error (.inl trivial)).eq trivial trivial
  have hevents : v.events.filter (·.resolving?.isNone) = v'.events.filter (·.resolving?.isNone) :=
    hjoins.events
  obtain ⟨result, last, hresult, hresult'⟩ :=
    Run.exists_run_toResult hrun hrun' (congrArg Place.position hplace) herror
  rw [Input.parse_of_run hresult, Input.parse_of_run hresult']
  simp only [Transcript.visible, List.filter_reverse, List.filter_append, hevents]

/-- So do the parses of a session, one by one. -/
theorem map_visible_session {grammar grammar' : Grammar τ ρ ω}
    (hsize : grammar.size = grammar'.size)
    (hrules : ∀ (β : Type) (rule : ρ β),
      (grammar.rules β rule).Alike .upToSharing (grammar'.rules β rule))
    {p p' : Parser τ ρ ω α} (hp : p.Alike .upToSharing p') (cells cells' : Cells)
    (inputs : List (Input τ)) :
    (grammar.session p cells inputs).map Transcript.visible =
      inputs.map fun input => (input.parse grammar' p' cells').visible := by
  induction inputs generalizing cells with
  | nil => rfl
  | cons input inputs ih =>
      simp only [Grammar.session, List.map_cons, ih,
        visible_parse_eq hsize hrules hp input cells cells']

end Parser

/-! ## Each at most once -/

namespace Cells

/-- The recursive parsers that are resolved, the last one first. -/
def keys (cells : Cells) : List Cell := cells.resolved.map Prod.fst

/-- No two recursive parsers enter the same copy unless it is the shared one, and the number of the
    next copy is free. -/
structure KeepsApart (cells : Cells) : Prop where
  le_copies : ∀ {cell : Cell} {copy : Nat}, (cell, copy) ∈ cells.resolved → copy ≤ cells.copies
  eq_of_copy : ∀ {cell cell' : Cell} {copy : Nat}, (cell, copy + 1) ∈ cells.resolved →
    (cell', copy + 1) ∈ cells.resolved → cell = cell'

variable {cells : Cells} {cell : Cell} {sharing : Sharing}

@[simp] theorem keys_resolve : (cells.resolve cell sharing).1.keys = cell :: cells.keys := by
  cases sharing <;> rfl

theorem not_mem_keys_of_target? (h : cells.target? cell = none) : cell ∉ cells.keys := by
  rw [target?, List.lookup_eq_none_iff] at h
  simp only [keys, List.mem_map, not_exists, not_and]
  rintro entry hentry rfl
  simpa using h entry hentry

theorem keepsApart_empty : empty.KeepsApart := ⟨nofun, nofun⟩

theorem KeepsApart.resolve (h : cells.KeepsApart) (cell : Cell) (sharing : Sharing) :
    (cells.resolve cell sharing).1.KeepsApart := by
  cases sharing with
  | shared =>
      refine ⟨fun hmem => ?_, fun hmem hmem' => ?_⟩
      · rcases List.mem_cons.1 hmem with heq | hmem
        · cases heq
          exact Nat.zero_le _
        · exact h.le_copies hmem
      · -- the copy is not the shared one, so that both entries were there before
        exact h.eq_of_copy ((List.mem_cons.1 hmem).resolve_left nofun)
          ((List.mem_cons.1 hmem').resolve_left nofun)
  | fresh =>
      have hfree {other : Cell} : (other, cells.copies + 1) ∉ cells.resolved := fun hmem =>
        Nat.not_succ_le_self _ (h.le_copies hmem)
      refine ⟨fun hmem => ?_, fun hmem hmem' => ?_⟩
      · rcases List.mem_cons.1 hmem with heq | hmem
        · cases heq
          exact Nat.le_refl _
        · exact Nat.le_succ_of_le (h.le_copies hmem)
      · -- of two different entries, at most one has the new number
        rcases List.mem_cons.1 hmem with heq | hmem <;>
          rcases List.mem_cons.1 hmem' with heq' | hmem'
        · cases heq
          cases heq'
          rfl
        · cases heq
          exact absurd hmem' hfree
        · cases heq'
          exact absurd hmem hfree
        · exact h.eq_of_copy hmem hmem'

end Cells

/-- On the way from one world to another, the recursive parsers in `new` were resolved, the last one
    first. None of them was resolved before. -/
structure World.Resolves (new : List Cell) (w v : World τ ω) : Prop where
  keys : v.cells.keys = new ++ w.cells.keys
  log : v.events.filterMap Event.resolving? = new ++ w.events.filterMap Event.resolving?
  nodup : new.Nodup
  disjoint : new.Disjoint w.cells.keys
  keepsApart : w.cells.KeepsApart → v.cells.KeepsApart

namespace World.Resolves

variable {new later : List Cell} {w v u : World τ ω}

theorem refl (w : World τ ω) : Resolves [] w w :=
  ⟨rfl, rfl, .nil, List.disjoint_nil_left _, id⟩

/-- Nothing is resolved where neither the cells nor their log changes. -/
theorem congr (h : Resolves new w v) (hcells : u.cells = v.cells)
    (hlog : u.events.filterMap Event.resolving? = v.events.filterMap Event.resolving?) :
    Resolves new w u :=
  ⟨hcells ▸ h.keys, hlog.trans h.log, h.nodup, h.disjoint, fun hw => hcells ▸ h.keepsApart hw⟩

theorem trans (h : Resolves new w v) (h' : Resolves later v u) : Resolves (later ++ new) w u := by
  have hdisjoint := h'.disjoint
  rw [h.keys, List.disjoint_append_right] at hdisjoint
  refine ⟨?_, ?_, h'.nodup.append h.nodup hdisjoint.1, ?_, fun hw => h'.keepsApart (h.keepsApart hw)⟩
  · rw [h'.keys, h.keys, List.append_assoc]
  · rw [h'.log, h.log, List.append_assoc]
  · exact List.disjoint_append_left.2 ⟨hdisjoint.2, h.disjoint⟩

end World.Resolves

namespace Run

theorem stepwise_resolves :
    Stepwise fun _ (w : World τ ω) _ v => ∃ new, World.Resolves new w v where
  refl _ w := ⟨[], .refl w⟩
  trans := by
    rintro _ _ a r w v u ⟨new, hnew⟩ ⟨later, hlater⟩
    exact ⟨later ++ new, hnew.trans hlater⟩
  stop h := h
  halt _ _ w := ⟨[], .refl w⟩
  setState w _ := ⟨[], (World.Resolves.refl w).congr rfl rfl⟩
  popBookmark := by
    rintro _ reason w v ⟨new, hnew⟩
    exact ⟨new, hnew.congr rfl rfl⟩
  emit {event} hpassing w := by
    refine ⟨[], (World.Resolves.refl w).congr rfl (List.filterMap_cons_none ?_)⟩
    cases event with
    | resolving => cases hpassing
    | _ => rfl
  resolve {cell} sharing w htarget := by
    have hfree : cell ∉ w.cells.keys := Cells.not_mem_keys_of_target? htarget
    exact ⟨[cell], Cells.keys_resolve, rfl, List.nodup_singleton cell,
      List.singleton_disjoint.2 hfree, fun h => h.resolve cell sharing⟩

/-- The end of a whole parse resolves nothing. -/
theorem resolves_toResult {x : Run τ ω (Outcome α)} {new : List Cell} {w : World τ ω}
    (h : World.Resolves new w (x.run w).2) : World.Resolves new w (x.toResult.run w).2 := by
  rcases hrun : x.run w with ⟨reason | ⟨a, consumed⟩ | consumed, v⟩ <;> rw [hrun] at h
  · rw [run_toResult_of_error hrun]
    exact h
  · rw [run_toResult_of_success hrun]
    exact h.congr rfl rfl
  · rw [run_toResult_of_failure hrun]
    exact h.congr rfl rfl

end Run

/-! ## Sessions -/

namespace Parser

theorem resolves_eval_calls (ruler : Ruler τ) (rules : Rules τ ρ ω) (depth : Nat)
    (p : Parser τ ρ ω α) (copy : Nat) (w : World τ ω) :
    ∃ new, World.Resolves new w ((p.eval ruler (calls ruler rules depth) copy).run w).2 :=
  compositional_eval_calls (Run.stepwise_resolves.compositional ruler)
    (.inr fun _ _ _ w => ⟨[], (World.Resolves.refl w).congr rfl rfl⟩) depth copy w

/-- What one parse resolves was not resolved before, and it logs all of it, in order. -/
theorem resolved_parse (input : Input τ) (grammar : Grammar τ ρ ω) (p : Parser τ ρ ω α)
    (cells : Cells) :
    let t := input.parse grammar p cells
    t.cells.keys = t.resolved.reverse ++ cells.keys ∧ t.resolved.Nodup ∧
      t.resolved.Disjoint cells.keys ∧ (cells.KeepsApart → t.cells.KeepsApart) := by
  obtain ⟨new, hparser⟩ := resolves_eval_calls input.ruler grammar.rules
    (grammar.depth input.tokens.length) p 0 ⟨input.initialState, [], cells⟩
  have hnew := Run.resolves_toResult hparser
  rw [← parse] at hnew
  rcases hrun : (p.parse input.ruler grammar.rules (grammar.depth input.tokens.length)).toResult.run
    ⟨input.initialState, [], cells⟩ with ⟨result, v⟩
  rw [hrun] at hnew
  have hlog : v.events.filterMap Event.resolving? = new := by
    rw [hnew.log]
    exact List.append_nil new
  rw [Input.parse_of_run hrun]
  simp only [Transcript.resolved, List.filterMap_reverse, hlog, List.reverse_reverse,
    List.nodup_reverse]
  refine ⟨hnew.keys, hnew.nodup, ?_, hnew.keepsApart⟩
  exact fun cell hcell => hnew.disjoint (List.mem_reverse.1 hcell)

/-- A session resolves what its parses resolve, each recursive parser at most once. -/
theorem resolved_session (grammar : Grammar τ ρ ω) (p : Parser τ ρ ω α) (cells : Cells)
    (inputs : List (Input τ)) :
    let log := (grammar.session p cells inputs).flatMap Transcript.resolved
    (grammar.cellsAfter p cells inputs).keys = log.reverse ++ cells.keys ∧ log.Nodup ∧
      log.Disjoint cells.keys ∧
      (cells.KeepsApart → (grammar.cellsAfter p cells inputs).KeepsApart) := by
  induction inputs generalizing cells with
  | nil => exact ⟨rfl, .nil, List.disjoint_nil_left _, id⟩
  | cons input inputs ih =>
      obtain ⟨hkeys, hnodup, hdisjoint, hapart⟩ := resolved_parse input grammar p cells
      obtain ⟨hkeys', hnodup', hdisjoint', hapart'⟩ := ih (input.parse grammar p cells).cells
      -- what the first parse resolved is resolved for all that follow
      rw [hkeys, List.disjoint_append_right] at hdisjoint'
      simp only [Grammar.session, List.flatMap_cons, Grammar.cellsAfter, List.foldl_cons,
        List.reverse_append]
      refine ⟨?_, ?_, ?_, ?_⟩
      · rw [← Grammar.cellsAfter, hkeys', hkeys, List.append_assoc]
      · exact hnodup.append hnodup' fun cell hcell hcell' =>
          hdisjoint'.1 hcell' (List.mem_reverse.2 hcell)
      · exact List.disjoint_append_left.2 ⟨hdisjoint, hdisjoint'.2⟩
      · exact fun h => hapart' (hapart h)

/-- **Resolving cannot be seen.** Let two grammars differ only in how references are resolved, and let
    one parser parse inputs in turn, from whatever was resolved before. Each parse has the result and
    reports the events, taps among them, of a parser that is used for the first time. The other
    grammar shows the same. Over all parses, the recursive parsers that are resolved are those whose
    resolving is logged, none of them twice and none that was resolved before. From a parser that is
    used for the first time, no two recursive parsers come to enter the same copy unless it is the
    shared one. -/
theorem session_visible_eq {grammar grammar' : Grammar τ ρ ω} (hsize : grammar.size = grammar'.size)
    (hrules : ∀ (β : Type) (rule : ρ β),
      (grammar.rules β rule).Alike .upToSharing (grammar'.rules β rule))
    {p p' : Parser τ ρ ω α} (hp : p.Alike .upToSharing p') (cells cells' : Cells)
    (inputs : List (Input τ)) :
    let session := grammar.session p cells inputs
    let log := session.flatMap Transcript.resolved
    session.map Transcript.visible =
      inputs.map (fun input => (input.parse grammar p .empty).visible) ∧
    session.map Transcript.visible =
      (grammar'.session p' cells' inputs).map Transcript.visible ∧
    (grammar.cellsAfter p cells inputs).keys = log.reverse ++ cells.keys ∧ log.Nodup ∧
    log.Disjoint cells.keys ∧ (grammar.cellsAfter p .empty inputs).KeepsApart := by
  intro session log
  have hsame (grammar : Grammar τ ρ ω) (β : Type) (rule : ρ β) :
      (grammar.rules β rule).Alike .upToSharing (grammar.rules β rule) := .refl _ _
  have hfirst : session.map Transcript.visible =
      inputs.map fun input => (input.parse grammar p .empty).visible :=
    map_visible_session rfl (hsame grammar) (.refl _ p) cells .empty inputs
  have hother : session.map Transcript.visible =
      (grammar'.session p' cells' inputs).map Transcript.visible :=
    (map_visible_session hsize hrules hp cells .empty inputs).trans
      (map_visible_session rfl (hsame grammar') (.refl _ p') cells' .empty inputs).symm
  obtain ⟨hkeys, hnodup, hdisjoint, -⟩ := resolved_session grammar p cells inputs
  have hapart := (resolved_session grammar p .empty inputs).2.2.2 Cells.keepsApart_empty
  exact ⟨hfirst, hother, hkeys, hnodup, hdisjoint, hapart⟩

/-- The rules of nested parentheses with one copy for all references. -/
def Nesting.sharing : Rules Char Nesting Unit
  | _, .depth =>
      orElse (map3 (fun _ n _ => n + 1) (token '(') (recursive 0 .shared .depth) (token ')')) (value 0)

theorem Nesting.alike_sharing (β : Type) (rule : Nesting β) :
    (Nesting.rules β rule).Alike .upToSharing (Nesting.sharing β rule) := by
  cases rule
  exact .orElse (.map3 _ (.refl _ _) (.recursive _ False.elim) (.refl _ _)) (.refl _ _)

/-- A parse that fails resolves two references, one that goes deeper a third one and the same parse
    again none. With one copy for all references there is no third one, and all shows the same. -/
theorem session_visible_eq_nesting :
    let grammar : Grammar Char Nesting Unit := ⟨Nesting.rules, 1⟩
    let grammar' : Grammar Char Nesting Unit := ⟨Nesting.sharing, 1⟩
    let p : Parser Char Nesting Unit Nat := recursive 1 .shared .depth
    let inputs := [['(', 'a'], ['(', '(', ')', ')'], ['(', '(', ')', ')']].map Input.ofTokens
    let session := grammar.session p .empty inputs
    let session' := grammar'.session p .empty inputs
    session.map Transcript.resolved = [[⟨0, 1⟩, ⟨0, 0⟩], [⟨1, 0⟩], []] ∧
    session'.map Transcript.resolved = [[⟨0, 1⟩, ⟨0, 0⟩], [], []] ∧
    session.map Transcript.visible = session'.map Transcript.visible ∧
    (session.flatMap Transcript.resolved).Nodup := by
  intro grammar grammar' p inputs session session'
  have hsize : grammar.size = grammar'.size := rfl
  obtain ⟨-, hvisible, -, hnodup, -⟩ :=
    session_visible_eq hsize Nesting.alike_sharing (.refl _ p) .empty .empty inputs
  exact ⟨rfl, rfl, hvisible, hnodup⟩

end Parser

end CommittedChoice
