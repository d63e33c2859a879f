import CommittedChoice.Proofs.Bookmarks
import CommittedChoice.Proofs.Likeness

set_option autoImplicit false

/-! # Two parses side by side

Two parses may run that differ in something that should not matter: one parser from two states, or
two parsers that are alike. A `Coupling` says what the two parses have in common: which places
correspond, which events both report, and whether both have resolved the same recursive parsers; a
`Likeness` says what the two grammars have in common. `Run.Relates c like agree x y` says that this is
kept: from worlds that are joined by `c`, the computations `x` and `y` give answers that are alike
and end in worlds that are joined by `c`.

The error of a state needs care, because parsers write it at one place and read it at another. The
proposition `agree` says whether the errors are known to be alike. After a failure they are alike in
any case: every parser that fails has written the error, or a part of it that failed has. After a
success nothing is added to what was known. So the rule for one computation after another
(`Run.Relates.bind`) has two premises, and the part that follows a failure may rely on the error.

The main statement is `Parser.relates_eval_calls`: parsers that are alike, over rules that are alike,
are related. A parser is like itself, so that it couples with itself (`Parser.couples_eval_calls`):
then the answers are the same, and so are the errors. -/

namespace CommittedChoice

variable {τ ω α β γ : Type}

/-! ## What two parses have in common -/

/-- What is kept in common by two parses. Places that correspond have the same tokens left and the
    same position, and reading a token leads to places that correspond again. -/
structure Coupling (τ ω : Type) where
  /-- How the first parse measures tokens. -/
  ruler : Ruler τ
  /-- How the second parse measures tokens. -/
  ruler' : Ruler τ
  /-- Which places correspond. -/
  place : Place τ → Place τ → Prop
  /-- Which events are reported by both parses. -/
  shown : Event ω → Bool
  /-- Whether the recursive parsers are resolved in the same way. -/
  sameCells : Prop
  rest_eq : ∀ {q q' : Place τ}, place q q' → q.rest = q'.rest
  position_eq : ∀ {q q' : Place τ}, place q q' → q.position = q'.position
  rel_next? : ∀ {q q' : Place τ}, place q q' → Option.Rel place (q.next? ruler) (q'.next? ruler')
  sameCells_of_shown : ∀ {cell : Cell}, shown (.resolving cell) = true → sameCells

/-- The worlds of two parses that are coupled. The errors are the same if `agree` holds. -/
structure Coupling.Joins (c : Coupling τ ω) (agree : Prop) (w w' : World τ ω) : Prop where
  place : c.place w.state.place w'.state.place
  events : w.events.filter c.shown = w'.events.filter c.shown
  cells : c.sameCells → w.cells = w'.cells
  error : agree → w.state.error = w'.state.error

/-- The worlds of two coupled parses of grammars that are alike. The errors are alike if `agree`
    holds. -/
structure Coupling.JoinsAlike (c : Coupling τ ω) (like : Likeness) (agree : Prop)
    (w w' : World τ ω) : Prop where
  place : c.place w.state.place w'.state.place
  events : w.events.filter c.shown = w'.events.filter c.shown
  cells : c.sameCells → w.cells = w'.cells
  error : agree → like.Errors w.state.error w'.state.error

/-- The coupling compares nothing in which grammars that are alike may differ. -/
structure Coupling.Respects (c : Coupling τ ω) (like : Likeness) : Prop where
  sharing : c.sameCells → like.sharing
  remark : ∀ {r : Remark ω}, c.shown (.remark r) = true → like.reports
  looped : ∀ {loop : Loop} {name : String} {position : Position},
    c.shown (.looped loop name position) = true → like.reports

namespace Coupling

variable {c : Coupling τ ω} {like : Likeness} {agree agree' : Prop} {w w' : World τ ω}

theorem peek_eq {s s' : State τ} (h : c.place s.place s'.place) : s.peek = s'.peek := by
  simp only [State.peek, Place.peek, c.rest_eq h]

theorem respects_same (c : Coupling τ ω) : c.Respects .same :=
  ⟨fun _ => trivial, fun _ => trivial, fun _ => trivial⟩

theorem Joins.joinsAlike (h : c.Joins agree w w') (like : Likeness) : c.JoinsAlike like agree w w' :=
  ⟨h.place, h.events, h.cells, fun hagree => h.error hagree ▸ .refl like _⟩

namespace JoinsAlike

theorem joins (h : c.JoinsAlike .same agree w w') : c.Joins agree w w' :=
  ⟨h.place, h.events, h.cells, fun hagree => (h.error hagree).eq trivial trivial⟩

theorem mono (h : c.JoinsAlike like agree w w') (himp : agree' → agree) :
    c.JoinsAlike like agree' w w' :=
  ⟨h.place, h.events, h.cells, fun hagree => h.error (himp hagree)⟩

/-- The state may change as long as the places correspond and the errors are as known. -/
theorem withState (h : c.JoinsAlike like agree w w') {s s' : State τ}
    (hplace : c.place s.place s'.place) (herror : agree' → like.Errors s.error s'.error) :
    c.JoinsAlike like agree' { w with state := s } { w' with state := s' } :=
  ⟨hplace, h.events, h.cells, herror⟩

/-- Events may differ if neither is among those that are compared. -/
theorem emit (h : c.JoinsAlike like agree w w') {event event' : Event ω}
    (hevent : event = event' ∨ c.shown event = false ∧ c.shown event' = false) :
    c.JoinsAlike like agree { w with events := event :: w.events }
      { w' with events := event' :: w'.events } := by
  refine ⟨h.place, ?_, h.cells, h.error⟩
  rcases hevent with rfl | ⟨hhidden, hhidden'⟩
  · simp only [List.filter_cons, h.events]
  · simp [hhidden, hhidden', h.events]

end JoinsAlike

end Coupling

/-! ## Computations that are related -/

/-- The answer is a failure. -/
def Run.Failed (r : Except Stop (Outcome α)) : Prop := ∃ consumed, r = .ok (.failure consumed)

/-- From joined worlds the computations give the same answer and end in joined worlds, in which the
    errors are the same if they were before or if the answer is a failure. -/
def Run.Couples (c : Coupling τ ω) (agree : Prop) (x y : Run τ ω (Outcome α)) : Prop :=
  ∀ ⦃w w' : World τ ω⦄, c.Joins agree w w' → ∃ r v v', x.run w = (r, v) ∧ y.run w' = (r, v') ∧
    c.Joins (agree ∨ Run.Failed r) v v'

/-- From joined worlds the computations give answers that are alike and end in joined worlds, in
    which the errors are alike if they were before or if the answer is a failure. -/
def Run.Relates (c : Coupling τ ω) (like : Likeness) (agree : Prop)
    (x y : Run τ ω (Outcome α)) : Prop :=
  ∀ ⦃w w' : World τ ω⦄, c.JoinsAlike like agree w w' → ∃ r r' v v', x.run w = (r, v) ∧
    y.run w' = (r', v') ∧ like.Answers r r' ∧ c.JoinsAlike like (agree ∨ Run.Failed r) v v'

namespace Run

theorem not_failed_success (v : α) (consumed : Bool) :
    ¬ Failed (.ok (.success v consumed)) := by
  rintro ⟨_, h⟩
  cases h

theorem not_failed_error (reason : Stop) : ¬ Failed (.error reason : Except Stop (Outcome α)) := by
  rintro ⟨_, h⟩
  cases h

theorem run_resolve_of_some {w : World τ ω} {cell : Cell} {sharing : Sharing} {k : Nat}
    (h : w.cells.target? cell = some k) :
    (resolve cell sharing : Run τ ω Nat).run w = (.ok k, w) := by
  simp only [resolve, h]

theorem run_resolve_of_none {w : World τ ω} {cell : Cell} {sharing : Sharing}
    (h : w.cells.target? cell = none) :
    (resolve cell sharing : Run τ ω Nat).run w =
      (.ok (w.cells.resolve cell sharing).2,
        { w with cells := (w.cells.resolve cell sharing).1,
                 events := .resolving cell :: w.events }) := by
  simp only [resolve, h]

/-- Of the state and of the events that are shown, resolving changes nothing if it is not shown. -/
theorem exists_run_resolve {shown : Event ω → Bool} {cell : Cell}
    (hhidden : shown (.resolving cell) = false) (sharing : Sharing) (w : World τ ω) :
    ∃ k v, (resolve cell sharing : Run τ ω Nat).run w = (.ok k, v) ∧ v.state = w.state ∧
      v.events.filter shown = w.events.filter shown := by
  rcases htarget : w.cells.target? cell with _ | k
  · refine ⟨_, _, run_resolve_of_none htarget, rfl, ?_⟩
    rw [List.filter_cons_of_neg (by simp [hhidden])]
  · exact ⟨k, w, run_resolve_of_some htarget, rfl, rfl⟩

namespace Relates

variable {c : Coupling τ ω} {like : Likeness} {agree : Prop} {x y : Run τ ω (Outcome α)}

/-- Where nothing differs, the answers and the errors are the same. -/
theorem couples (h : x.Relates c .same agree y) : x.Couples c agree y := by
  intro w w' hjoins
  obtain ⟨r, r', v, v', hrun, hrun', hr, hend⟩ := h (hjoins.joinsAlike .same)
  obtain rfl := hr.eq trivial
  exact ⟨r, v, v', hrun, hrun', hend.joins⟩

theorem success (v : α) (consumed : Bool) :
    (pure (.success v consumed) : Run τ ω (Outcome α)).Relates c like agree
      (pure (.success v consumed)) := by
  intro w w' h
  refine ⟨_, _, _, _, rfl, rfl, .ok _, h.mono ?_⟩
  rintro (hagree | hfailed)
  · exact hagree
  · exact absurd hfailed (not_failed_success v consumed)

/-- A failure may be passed on where the errors are alike. -/
theorem failure (consumed : Bool) :
    (pure (.failure consumed) : Run τ ω (Outcome α)).Relates c like True
      (pure (.failure consumed)) :=
  fun _ _ h => ⟨_, _, _, _, rfl, rfl, .ok _, h.mono fun _ => trivial⟩

theorem stop {reason reason' : Stop} (hreason : like.Stops reason reason') :
    (Run.stop reason : Run τ ω (Outcome α)).Relates c like agree (Run.stop reason') := by
  intro w w' h
  refine ⟨_, _, _, _, rfl, rfl, .error hreason, h.mono ?_⟩
  rintro (hagree | hfailed)
  · exact hagree
  · exact absurd hfailed (not_failed_error reason)

/-- One computation after another. What follows a failure may rely on the error. -/
theorem bind {f g : Outcome α → Run τ ω (Outcome β)} (hx : x.Relates c like agree y)
    (hsuccess : ∀ v consumed,
      (f (.success v consumed)).Relates c like agree (g (.success v consumed)))
    (hfailure : ∀ consumed, (f (.failure consumed)).Relates c like True (g (.failure consumed))) :
    (x >>= f).Relates c like agree (y >>= g) := by
  intro w w' h
  obtain ⟨r, r', v, v', hrun, hrun', hr, hjoins⟩ := hx h
  cases hr with
  | @error reason reason' hreason =>
      rw [run_bind_of_error hrun, run_bind_of_error hrun']
      refine ⟨_, _, _, _, rfl, rfl, .error hreason, hjoins.mono ?_⟩
      rintro (hagree | hfailed)
      · exact .inl hagree
      · exact absurd hfailed (not_failed_error reason)
  | ok outcome =>
      rw [run_bind_of_ok hrun, run_bind_of_ok hrun']
      cases outcome with
      | success a consumed => exact hsuccess a consumed (hjoins.mono .inl)
      | failure consumed =>
          -- the failed part has written the error, so that it is alike in both parses
          have halike : c.JoinsAlike like True v v' := hjoins.mono fun _ => .inr ⟨consumed, rfl⟩
          obtain ⟨r, r', u, u', hend, hend', hr, hjoins'⟩ := hfailure consumed halike
          exact ⟨r, r', u, u', hend, hend', hr, hjoins'.mono fun _ => .inl trivial⟩

/-- The outcome may be changed as long as a success stays one. -/
theorem map (hx : x.Relates c like agree y) {f : Outcome α → Outcome β}
    (hf : ∀ outcome, (f outcome).isSuccess = outcome.isSuccess) :
    (x >>= fun outcome => pure (f outcome)).Relates c like agree
      (y >>= fun outcome => pure (f outcome)) := by
  refine bind hx (fun v consumed => ?_) fun consumed => ?_
  · have hsuccess := hf (.success v consumed)
    rcases houtcome : f (.success v consumed) with ⟨_, _⟩ | _
    · exact success _ _
    · rw [houtcome] at hsuccess
      cases hsuccess
  · have hfailure := hf (.failure consumed)
    rcases houtcome : f (.failure consumed) with ⟨_, _⟩ | _
    · rw [houtcome] at hfailure
      cases hfailure
    · exact failure _

/-! ## Steps -/

theorem emit (event : Event ω) (hx : x.Relates c like agree y) :
    (Run.emit event >>= fun _ => x).Relates c like agree (Run.emit event >>= fun _ => y) :=
  fun _ _ h => hx (h.emit (.inl rfl))

/-- The states may differ, but they stand at places that correspond. -/
theorem getState {f g : State τ → Run τ ω (Outcome α)}
    (h : ∀ s s', c.place s.place s'.place → (agree → like.Errors s.error s'.error) →
      (f s).Relates c like agree (g s')) :
    (Run.getState >>= f).Relates c like agree (Run.getState >>= g) :=
  fun w w' hjoins => h w.state w'.state hjoins.place hjoins.error hjoins

/-- Writing errors that are alike in both parses. -/
theorem setError {f g : State τ → State τ} (hf : ∀ s, (f s).place = s.place)
    (hg : ∀ s, (g s).place = s.place)
    (herror : ∀ s s', c.place s.place s'.place → (agree → like.Errors s.error s'.error) →
      like.Errors (f s).error (g s').error)
    (hx : x.Relates c like True y) :
    (Run.modifyState f >>= fun _ => x).Relates c like agree
      (Run.modifyState g >>= fun _ => y) := by
  intro w w' h
  have hplace : c.place (f w.state).place (g w'.state).place := by
    rw [hf, hg]
    exact h.place
  obtain ⟨r, r', v, v', hrun, hrun', hr, hjoins⟩ :=
    hx (h.withState hplace fun _ => herror w.state w'.state h.place h.error)
  exact ⟨r, r', v, v', hrun, hrun', hr, hjoins.mono fun _ => .inl trivial⟩

theorem advance (hx : x.Relates c like agree y) :
    (Run.advance c.ruler >>= fun _ => x).Relates c like agree
      (Run.advance c.ruler' >>= fun _ => y) := by
  intro w w' h
  have hnext := c.rel_next? h.place
  rcases hq : w.state.place.next? c.ruler with _ | q <;>
    rcases hq' : w'.state.place.next? c.ruler' with _ | q' <;> rw [hq, hq'] at hnext
  · -- neither position can follow
    rw [run_bind_of_error (run_advance_of_none hq), run_bind_of_error (run_advance_of_none hq')]
    exact stop (.same .overflow) h
  · cases hnext
  · cases hnext
  · rw [run_bind_of_ok (run_advance_of_some hq), run_bind_of_ok (run_advance_of_some hq')]
    cases hnext with
    | some hplace => exact hx (h.withState hplace h.error)

/-- Where both parses have resolved the same recursive parsers, both enter the same copy. -/
theorem resolve_same (hsame : c.sameCells) {cell : Cell} {sharing : Sharing}
    {f g : Nat → Run τ ω (Outcome α)} (hf : ∀ k, (f k).Relates c like agree (g k)) :
    (Run.resolve cell sharing >>= f).Relates c like agree (Run.resolve cell sharing >>= g) := by
  intro w w' h
  have hcells : w'.cells = w.cells := (h.cells hsame).symm
  rcases htarget : w.cells.target? cell with _ | k
  · rw [run_bind_of_ok (run_resolve_of_none htarget),
      run_bind_of_ok (run_resolve_of_none (hcells ▸ htarget)), hcells]
    have hevent : c.JoinsAlike like agree { w with events := .resolving cell :: w.events }
        { w' with events := .resolving cell :: w'.events } := h.emit (.inl rfl)
    exact hf _ ⟨hevent.place, hevent.events, fun _ => rfl, hevent.error⟩
  · rw [run_bind_of_ok (run_resolve_of_some htarget),
      run_bind_of_ok (run_resolve_of_some (hcells ▸ htarget))]
    exact hf k h

/-- Where the parses may have resolved different recursive parsers, they may enter different copies,
    and that one of them is resolved is not among the events that are compared. -/
theorem resolve_other (hother : ¬ c.sameCells) {cell cell' : Cell} {sharing sharing' : Sharing}
    {f g : Nat → Run τ ω (Outcome α)} (hf : ∀ k k', (f k).Relates c like agree (g k')) :
    (Run.resolve cell sharing >>= f).Relates c like agree
      (Run.resolve cell' sharing' >>= g) := by
  intro w w' h
  have hhidden (cell : Cell) : c.shown (.resolving cell) = false :=
    Bool.eq_false_iff.2 fun hshown => hother (c.sameCells_of_shown hshown)
  obtain ⟨k, v, hrun, hstate, hevents⟩ := exists_run_resolve (hhidden cell) sharing w
  obtain ⟨k', v', hrun', hstate', hevents'⟩ := exists_run_resolve (hhidden cell') sharing' w'
  rw [run_bind_of_ok hrun, run_bind_of_ok hrun']
  refine hf k k' ⟨?_, ?_, fun hsame => absurd hsame hother, ?_⟩
  · rw [hstate, hstate']
    exact h.place
  · rw [hevents, hevents']
    exact h.events
  · rw [hstate, hstate']
    exact h.error

theorem resolve {copy copy' index index' : Nat} {sharing sharing' : Sharing}
    {f g : Nat → Run τ ω (Outcome α)} (hcopy : c.sameCells → copy = copy')
    (hnode : c.sameCells → index = index' ∧ sharing = sharing')
    (hf : ∀ k k', (c.sameCells → k = k') → (f k).Relates c like agree (g k')) :
    (Run.resolve ⟨copy, index⟩ sharing >>= f).Relates c like agree
      (Run.resolve ⟨copy', index'⟩ sharing' >>= g) := by
  by_cases hsame : c.sameCells
  · obtain rfl := hcopy hsame
    obtain ⟨rfl, rfl⟩ := hnode hsame
    exact resolve_same hsame fun k => hf k k fun _ => rfl
  · exact resolve_other hsame fun k k' => hf k k' fun h => absurd h hsame

/-! ## Failing -/

theorem fail {expected expected' : List (Expected τ)} {message message' : String}
    (hexpected : like.reports → expected = expected')
    (hmessage : like.messages → message = message') (unexpected : Option τ)
    (consumed atEnd : Bool) :
    (Run.fail expected unexpected message consumed atEnd : Run τ ω (Outcome α)).Relates c like
      agree (Run.fail expected' unexpected message' consumed atEnd) := by
  refine setError (fun _ => rfl) (fun _ => rfl) (fun s s' hplace _ => ?_) (failure consumed)
  refine ⟨?_, hexpected, hmessage⟩
  simp only [State.fail, State.position, c.position_eq hplace]

theorem failAtEnd (expected : List (Expected τ)) (consumed : Bool) :
    (Run.failAtEnd expected consumed : Run τ ω (Outcome α)).Relates c like agree
      (Run.failAtEnd expected consumed) :=
  fail (fun _ => rfl) (fun _ => rfl) none consumed true

theorem failAtToken (expected : List (Expected τ)) (t : τ) (consumed : Bool) :
    (Run.failAtToken expected t consumed : Run τ ω (Outcome α)).Relates c like agree
      (Run.failAtToken expected t consumed) :=
  fail (fun _ => rfl) (fun _ => rfl) (some t) consumed false

/-- The last error is kept, so it has to be alike in both parses. -/
theorem forward {expected expected' : List (Expected τ)}
    (hexpected : like.reports → expected = expected') (consumed : Bool) :
    (Run.forward expected consumed : Run τ ω (Outcome α)).Relates c like True
      (Run.forward expected' consumed) :=
  setError (fun _ => rfl) (fun _ => rfl)
    (fun _ _ _ herror => (herror trivial).withExpected hexpected) (failure consumed)

/-- Loops may call their bodies by different names only where this is not among the events that are
    compared. -/
theorem loopFault (hrespects : c.Respects like) (loop : Loop) {name name' : String}
    (hname : like.reports → name = name') :
    (Run.loopFault loop name : Run τ ω (Outcome α)).Relates c like agree
      (Run.loopFault loop name') := by
  refine getState fun s s' hplace _ w w' hjoins => ?_
  simp only [State.position, c.position_eq hplace]
  refine stop (.fault loop hname) (hjoins.emit ?_)
  by_cases hreports : like.reports
  · exact .inl (by rw [hname hreports])
  · have hhidden (name : String) (position : Position) :
        c.shown (.looped loop name position) = false :=
      Bool.eq_false_iff.2 fun hshown => hreports (hrespects.looped hshown)
    exact .inr ⟨hhidden name _, hhidden name' _⟩

/-! ## Leaves -/

theorem satisfy (accepts : τ → Bool) (expected : List (Expected τ)) :
    (Run.satisfy c.ruler accepts expected : Run τ ω (Outcome τ)).Relates c like agree
      (Run.satisfy c.ruler' accepts expected) := by
  refine getState fun s s' hplace _ => ?_
  rw [Coupling.peek_eq hplace]
  split
  · exact failAtEnd expected false
  · split
    · exact advance (success _ true)
    · exact failAtToken expected _ false

theorem spelled (expected : List (Expected τ)) (tests : List (τ → Bool)) (earlier : Bool) :
    (Run.spelled c.ruler expected earlier tests : Run τ ω (Outcome (List τ))).Relates c like agree
      (Run.spelled c.ruler' expected earlier tests) := by
  induction tests generalizing earlier with
  | nil => exact success [] earlier
  | cons accepts tests ih =>
      refine getState fun s s' hplace _ => ?_
      rw [Coupling.peek_eq hplace]
      split
      · exact failAtEnd expected earlier
      · split
        · exact advance (map (ih true) (Outcome.isSuccess_map _))
        · exact failAtToken expected _ earlier

theorem endOfInput (expected : List (Expected τ)) :
    (Run.endOfInput expected : Run τ ω (Outcome Unit)).Relates c like agree
      (Run.endOfInput expected) := by
  refine getState fun s s' hplace _ => ?_
  rw [Coupling.peek_eq hplace]
  split
  · exact success () false
  · exact fail (fun _ => rfl) (fun _ => rfl) _ false false

/-! ## Sequences -/

theorem component {expected expected' : List (Expected τ)}
    (hexpected : like.reports → expected = expected') {earlier : Bool}
    {next next' : α → Bool → Run τ ω (Outcome β)} (hx : x.Relates c like agree y)
    (hnext : ∀ v consumed, (next v consumed).Relates c like agree (next' v consumed)) :
    (Run.component expected earlier x next).Relates c like agree
      (Run.component expected' earlier y next') :=
  bind hx (fun v consumed => hnext v (earlier || consumed)) fun consumed =>
    forward hexpected (earlier || consumed)

theorem all {expected expected' : List (Expected τ)}
    (hexpected : like.reports → expected = expected') {earlier : Bool} {size : Nat}
    {xs ys : Fin size → Run τ ω (Outcome α)} (hxs : ∀ i, (xs i).Relates c like agree (ys i)) :
    (Run.all expected earlier (List.ofFn xs)).Relates c like agree
      (Run.all expected' earlier (List.ofFn ys)) := by
  induction size generalizing earlier with
  | zero =>
      rw [List.ofFn_zero, List.ofFn_zero]
      exact success [] earlier
  | succ size ih =>
      rw [List.ofFn_succ, List.ofFn_succ]
      exact component hexpected (hxs 0) fun _ _ =>
        map (ih fun i => hxs i.succ) (Outcome.isSuccess_map _)

theorem dependent {f : α → β → γ} {next next' : α → Run τ ω (Outcome β)}
    (hx : x.Relates c like agree y) (hnext : ∀ v, (next v).Relates c like agree (next' v)) :
    (Run.dependent f x next).Relates c like agree (Run.dependent f y next') :=
  bind hx (fun v consumed => map (hnext v) fun outcome => by simp) failure

/-! ## Choice and conditions -/

/-- Errors that are alike lie at the same position, so that the same one is further. -/
theorem errors_further {best best' : Option (ParseError τ)} {e e' : ParseError τ}
    (hbest : Option.Rel like.Errors best best') (h : like.Errors e e') :
    like.Errors (further best e) (further best' e') := by
  cases hbest with
  | none => exact h
  | some hbest =>
      simp only [further, hbest.position, h.position]
      split
      · exact h
      · exact hbest

/-- Where an alternative that is not final has failed, the errors of both parses are alike, so that
    the errors that they keep as the furthest ones are alike. -/
theorem alternatives {exhausted exhausted' : Option (ParseError τ) → Run τ ω (Outcome α)}
    {best best' : Option (ParseError τ)} {size : Nat} {xs ys : Fin size → Run τ ω (Outcome α)}
    (hbest : Option.Rel like.Errors best best')
    (hxs : ∀ i agree, (xs i).Relates c like agree (ys i))
    (hexhausted : ∀ e e' agree, Option.Rel like.Errors e e' →
      (exhausted e).Relates c like agree (exhausted' e')) :
    (Run.alternatives exhausted best (List.ofFn xs)).Relates c like agree
      (Run.alternatives exhausted' best' (List.ofFn ys)) := by
  induction size generalizing agree best best' with
  | zero =>
      rw [List.ofFn_zero, List.ofFn_zero]
      exact hexhausted best best' agree hbest
  | succ size ih =>
      rw [List.ofFn_succ, List.ofFn_succ]
      refine bind (hxs 0 agree) success fun consumed => ?_
      cases consumed with
      | true => exact failure true
      | false =>
          -- the next alternative runs, and the errors of this one are compared with the best ones
          refine getState fun s s' _ herror => ?_
          exact ih (.some (errors_further hbest (herror trivial))) fun i => hxs i.succ

theorem choice {expected expected' : List (Expected τ)}
    (hexpected : like.reports → expected = expected') {size : Nat}
    {xs ys : Fin size → Run τ ω (Outcome α)}
    (hxs : ∀ i agree, (xs i).Relates c like agree (ys i)) :
    (Run.choice expected (List.ofFn xs)).Relates c like agree
      (Run.choice expected' (List.ofFn ys)) := by
  refine alternatives .none hxs fun e e' agree he => ?_
  cases he with
  | none => exact fail hexpected (fun _ => rfl) none false false
  | some herror =>
      simp only [List.length_ofFn, herror.position]
      exact emit _ (setError (fun _ => rfl) (fun _ => rfl) (fun _ _ _ _ => herror)
        (forward hexpected false))

/-- A negation fails with an error made from the place where the attempt started. -/
theorem negate {expected expected' : List (Expected τ)} {message message' : String}
    (hexpected : like.reports → expected = expected')
    (hmessage : like.messages → message = message') (hx : x.Relates c like agree y) :
    (Run.negate expected message x).Relates c like agree
      (Run.negate expected' message' y) := by
  refine getState fun before before' hplace _ => bind hx (fun v consumed => ?_) fun consumed => ?_
  · refine setError (fun _ => rfl) (fun _ => rfl) (fun _ _ _ _ => ?_) (failure consumed)
    refine ⟨?_, hexpected, hmessage⟩
    simp only [Coupling.peek_eq hplace, State.position, c.position_eq hplace]
  · exact success () consumed

theorem check {expected expected' : List (Expected τ)}
    (hexpected : like.reports → expected = expected') {accepts : α → Bool} {message : α → String}
    (hx : x.Relates c like agree y) :
    (Run.check expected accepts message x).Relates c like agree
      (Run.check expected' accepts message y) := by
  refine bind hx (fun v consumed => ?_) failure
  show (if accepts v then _ else _ : Run τ ω (Outcome α)).Relates c like agree
    (if accepts v then _ else _)
  split
  · exact success v consumed
  · exact fail hexpected (fun _ => rfl) none consumed false

/-! ## Speculation -/

/-- The bookmarks on top of the two stacks are the places where the two speculations started, and
    these correspond. The rest of the stacks may differ. -/
theorem speculate {finish finish' : Outcome α → Run τ ω (Outcome β)}
    (hx : x.Relates c like agree y) (hbookmarks : x.KeepsBookmarks)
    (hbookmarks' : y.KeepsBookmarks)
    (hfinish : ∀ outcome w w' q q' stack stack', w.state.bookmarks = q :: stack →
      w'.state.bookmarks = q' :: stack' → c.place q q' →
      c.JoinsAlike like (agree ∨ Failed (.ok outcome)) w w' →
      ∃ outcome' v v', (finish outcome).run w = (.ok outcome', v) ∧
        (finish' outcome).run w' = (.ok outcome', v') ∧
        c.JoinsAlike like (agree ∨ Failed (.ok outcome')) v v') :
    (Run.speculate x finish).Relates c like agree (Run.speculate y finish') := by
  intro w w' h
  have hkeep := hbookmarks { w with state := w.state.pushBookmark }
  have hkeep' := hbookmarks' { w' with state := w'.state.pushBookmark }
  have hpush : c.JoinsAlike like agree { w with state := w.state.pushBookmark }
      { w' with state := w'.state.pushBookmark } := h.withState h.place h.error
  obtain ⟨r, r', v, v', hrun, hrun', hr, hjoins⟩ := hx hpush
  rw [hrun] at hkeep
  rw [hrun'] at hkeep'
  simp only [Run.speculate, hrun, hrun']
  cases hr with
  | @error reason reason' hreason =>
      refine ⟨_, _, _, _, rfl, rfl, .error hreason, hjoins.withState hjoins.place ?_⟩
      rintro (hagree | hfailed)
      · exact hjoins.error (.inl hagree)
      · exact absurd hfailed (not_failed_error reason)
  | ok outcome =>
      obtain ⟨outcome', u, u', hend, hend', hjoins'⟩ :=
        hfinish outcome v v' _ _ _ _ hkeep hkeep' h.place hjoins
      exact ⟨_, _, u, u', hend, hend', .ok outcome', hjoins'⟩

theorem lookahead (hx : x.Relates c like agree y) (hbookmarks : x.KeepsBookmarks)
    (hbookmarks' : y.KeepsBookmarks) :
    (Run.lookahead x).Relates c like agree (Run.lookahead y) := by
  refine speculate hx hbookmarks hbookmarks' fun outcome w w' q q' stack stack' hstack hstack'
    hplace hjoins => ?_
  cases outcome with
  | success v consumed =>
      refine ⟨.success v false, _, _, rfl, rfl, ?_⟩
      rw [State.rewind_of_cons hstack, State.rewind_of_cons hstack']
      refine hjoins.withState hplace ?_
      rintro (hagree | hfailed)
      · exact hjoins.error (.inl hagree)
      · exact absurd hfailed (not_failed_success v false)
  | failure consumed =>
      exact ⟨.failure consumed, _, _, rfl, rfl, hjoins.withState hjoins.place hjoins.error⟩

theorem safe (hx : x.Relates c like agree y) (hbookmarks : x.KeepsBookmarks)
    (hbookmarks' : y.KeepsBookmarks) : (Run.safe x).Relates c like agree (Run.safe y) := by
  refine speculate hx hbookmarks hbookmarks' fun outcome w w' q q' stack stack' hstack hstack'
    hplace hjoins => ?_
  cases outcome with
  | success v consumed =>
      exact ⟨.success v consumed, _, _, rfl, rfl, hjoins.withState hjoins.place hjoins.error⟩
  | failure consumed =>
      refine ⟨.failure false, _, _, rfl, rfl, ?_⟩
      rw [State.rewind_of_cons hstack, State.rewind_of_cons hstack']
      exact hjoins.withState hplace fun _ => hjoins.error (.inr ⟨consumed, rfl⟩)

/-! ## Repetition -/

/-- Both loops get the same number of rounds, because the same tokens are left. -/
theorem bound {f g : Nat → Run τ ω (Outcome α)} (h : ∀ n, (f n).Relates c like agree (g n)) :
    (Run.bound >>= f).Relates c like agree (Run.bound >>= g) := by
  intro w w' hjoins
  have hbound : (Run.bound : Run τ ω Nat).run w = (.ok (w.state.place.rest.length + 1), w) := rfl
  have hbound' : (Run.bound : Run τ ω Nat).run w' = (.ok (w.state.place.rest.length + 1), w') := by
    rw [c.rest_eq hjoins.place]
    rfl
  rw [run_bind_of_ok hbound, run_bind_of_ok hbound']
  exact h _ hjoins

section Loops

variable {name name' : String} (hrespects : c.Respects like) (hname : like.reports → name = name')

include hrespects hname

theorem rounds {loop : Loop} {combine : β → α → β} (hx : x.Relates c like agree y)
    (fuel : Nat) (acc : β) (consumed : Bool) (count : Nat) :
    (Run.rounds loop name combine x fuel acc consumed count).Relates c like agree
      (Run.rounds loop name' combine y fuel acc consumed count) := by
  induction fuel generalizing acc consumed count with
  | zero => exact stop (.same .unfinished)
  | succ fuel ih =>
      refine bind hx (fun v roundConsumed => ?_) fun roundConsumed => ?_
      · cases roundConsumed with
        | false => exact loopFault hrespects loop hname
        | true => exact ih (combine acc v) true (count + 1)
      · cases roundConsumed with
        | false => exact emit _ (success acc consumed)
        | true => exact failure true

theorem chain {seed : β} {combine : β → α → β} (hx : x.Relates c like agree y) :
    (Run.chain name seed combine x).Relates c like agree (Run.chain name' seed combine y) :=
  bind hx (fun _ consumed => bound fun fuel => rounds hrespects hname hx fuel _ consumed 1) failure

omit hrespects hname in
theorem continuation {expected expected' : List (Expected τ)}
    (hexpected : like.reports → expected = expected') {separator separator' : Run τ ω (Outcome β)}
    (hx : x.Relates c like agree y) (hseparator : separator.Relates c like agree separator') :
    (Run.continuation expected separator x).Relates c like agree
      (Run.continuation expected' separator' y) :=
  component hexpected hseparator fun _ _ => component hexpected hx success

theorem separated {expected expected' : List (Expected τ)}
    (hexpected : like.reports → expected = expected') {separator separator' : Run τ ω (Outcome β)}
    (hx : x.Relates c like agree y) (hseparator : separator.Relates c like agree separator') :
    (Run.separated name expected x separator).Relates c like agree
      (Run.separated name' expected' y separator') := by
  refine bind hx (fun v consumed => bound fun fuel => ?_) failure
  exact map (rounds hrespects hname (continuation hexpected hx hseparator) fuel [v] consumed 1)
    (Outcome.isSuccess_map _)

theorem optionallyTerminatedRounds {separator separator' : Run τ ω (Outcome β)}
    (hx : x.Relates c like agree y) (hseparator : separator.Relates c like agree separator')
    (fuel : Nat) (found : List α) (consumed : Bool) :
    (Run.optionallyTerminatedRounds name x separator fuel found consumed).Relates c like agree
      (Run.optionallyTerminatedRounds name' y separator' fuel found consumed) := by
  induction fuel generalizing found consumed with
  | zero => exact stop (.same .unfinished)
  | succ fuel ih =>
      refine bind hseparator (fun u separatorConsumed => ?_) fun separatorConsumed => ?_
      · refine bind hx (fun v valueConsumed => ?_) fun valueConsumed => ?_
        · show (if separatorConsumed || valueConsumed then _ else _ :
            Run τ ω (Outcome (List α))).Relates c like agree
              (if separatorConsumed || valueConsumed then _ else _)
          split
          · exact ih (v :: found) true
          · exact loopFault hrespects .optionallyTerminated hname
        · cases valueConsumed with
          | false => exact emit _ (success _ _)
          | true => exact failure true
      · cases separatorConsumed with
        | false => exact success _ consumed
        | true => exact failure true

theorem optionallyTerminated {separator separator' : Run τ ω (Outcome β)}
    (hx : x.Relates c like agree y) (hseparator : separator.Relates c like agree separator') :
    (Run.optionallyTerminated name x separator).Relates c like agree
      (Run.optionallyTerminated name' y separator') :=
  bind hx (fun v consumed => bound fun fuel =>
    optionallyTerminatedRounds hrespects hname hx hseparator fuel [v] consumed) failure

end Loops

end Relates

/-! ## Wrappers that only report -/

section Wrappers

variable {c : Coupling τ ω} {like : Likeness} {agree : Prop} {x y z : Run τ ω (Outcome α)}

/-- A wrapper around one of the two computations: it keeps the answer, goes nowhere, and changes
    nothing that is compared. Of the error it may change the expectations. -/
def Wraps (c : Coupling τ ω) (x y : Run τ ω (Outcome α)) : Prop :=
  ∀ ⦃w : World τ ω⦄ ⦃r : Except Stop (Outcome α)⦄ ⦃v : World τ ω⦄, x.run w = (r, v) →
    ∃ u, y.run w = (r, u) ∧ u.state.place = v.state.place ∧ u.cells = v.cells ∧
      u.events.filter c.shown = v.events.filter c.shown ∧
      u.state.error.cause = v.state.error.cause ∧ u.state.error.message = v.state.error.message

theorem wraps_component {expected : List (Expected τ)} {next : α → Bool → Run τ ω (Outcome α)}
    (hnext : ∀ v consumed w, ∃ u, (next v consumed).run w = (.ok (.success v consumed), u) ∧
      u.state = w.state ∧ u.cells = w.cells ∧
      u.events.filter c.shown = w.events.filter c.shown) :
    Wraps c x (Run.component expected false x next) := by
  intro w r v hrun
  rcases r with reason | ⟨a, consumed⟩ | consumed
  · exact ⟨v, run_bind_of_error hrun, rfl, rfl, rfl, rfl, rfl⟩
  · obtain ⟨u, hend, hstate, hcells, hevents⟩ := hnext a consumed v
    refine ⟨u, ?_, ?_⟩
    · rw [Run.component, run_bind_of_ok hrun]
      simpa using hend
    · rw [hstate]
      exact ⟨rfl, hcells, hevents, rfl, rfl⟩
  · refine ⟨{ v with state := v.state.forward expected }, ?_, rfl, rfl, rfl, rfl, rfl⟩
    rw [Run.component, run_bind_of_ok hrun]
    simp only [Bool.false_or]
    rfl

theorem Relates.of_wraps_left (hreports : ¬ like.reports) (hz : Wraps c x z)
    (hx : x.Relates c like agree y) : z.Relates c like agree y := by
  intro w w' h
  obtain ⟨r, r', v, v', hrun, hrun', hr, hjoins⟩ := hx h
  obtain ⟨u, hend, hplace, hcells, hevents, hcause, hmessage⟩ := hz hrun
  refine ⟨r, r', u, v', hend, hrun', hr, ?_, ?_, ?_, ?_⟩
  · rw [hplace]
    exact hjoins.place
  · rw [hevents, hjoins.events]
  · rw [hcells]
    exact hjoins.cells
  · intro hknown
    have herror := hjoins.error hknown
    exact ⟨hcause.trans herror.cause, fun h => absurd h hreports,
      fun h => hmessage.trans (herror.message h)⟩

theorem Relates.of_wraps_right (hreports : ¬ like.reports) (hz : Wraps c y z)
    (hx : x.Relates c like agree y) : x.Relates c like agree z := by
  intro w w' h
  obtain ⟨r, r', v, v', hrun, hrun', hr, hjoins⟩ := hx h
  obtain ⟨u, hend, hplace, hcells, hevents, hcause, hmessage⟩ := hz hrun'
  refine ⟨r, r', v, u, hrun, hend, hr, ?_, ?_, ?_, ?_⟩
  · rw [hplace]
    exact hjoins.place
  · rw [hevents, hjoins.events]
  · rw [hcells]
    exact hjoins.cells
  · intro hknown
    have herror := hjoins.error hknown
    exact ⟨herror.cause.trans hcause.symm, fun h => absurd h hreports,
      fun h => (herror.message h).trans hmessage.symm⟩

end Wrappers

end Run

/-! ## Parsers -/

namespace Parser

variable {ρ : Type → Type} {c : Coupling τ ω} {like : Likeness}

section Wrappers

variable (ruler : Ruler τ) (call : Calls τ ρ ω) (copy : Nat)

theorem wraps_withExpected (expected : List (Expected τ)) (p : Parser τ ρ ω α) :
    Run.Wraps c (p.eval ruler call copy) ((withExpected expected p).eval ruler call copy) := by
  rw [eval_withExpected]
  exact Run.wraps_component fun _ _ w => ⟨w, rfl, rfl, rfl, rfl⟩

theorem wraps_map_id (p : Parser τ ρ ω α) :
    Run.Wraps c (p.eval ruler call copy) ((map id p).eval ruler call copy) := by
  rw [eval_map]
  exact Run.wraps_component fun _ _ w => ⟨w, rfl, rfl, rfl, rfl⟩

theorem wraps_observe (hhidden : ∀ r : Remark ω, c.shown (.remark r) = false)
    (remark : α → Remark ω) (p : Parser τ ρ ω α) :
    Run.Wraps c (p.eval ruler call copy) ((observe remark p).eval ruler call copy) := by
  rw [eval_observe]
  refine Run.wraps_component fun v consumed w =>
    ⟨{ w with events := .remark (remark v) :: w.events }, rfl, rfl, rfl, ?_⟩
  rw [List.filter_cons_of_neg (by simp [hhidden])]

end Wrappers

theorem relates_eval (hrespects : c.Respects like) {call call' : Calls τ ρ ω}
    (hcall : ∀ (β : Type) (rule : ρ β) (copy copy' : Nat), (c.sameCells → copy = copy') →
      ∀ agree, (call β rule copy).Relates c like agree (call' β rule copy'))
    (hbookmarks : ∀ (β : Type) (rule : ρ β) (copy : Nat), (call β rule copy).KeepsBookmarks)
    (hbookmarks' : ∀ (β : Type) (rule : ρ β) (copy : Nat), (call' β rule copy).KeepsBookmarks)
    {p p' : Parser τ ρ ω α} (hp : p.Alike like p') {copy copy' : Nat}
    (hcopy : c.sameCells → copy = copy') (agree : Prop) :
    (p.eval c.ruler call copy).Relates c like agree (p'.eval c.ruler' call' copy') := by
  have hhidden (hreports : ¬ like.reports) (r : Remark ω) : c.shown (.remark r) = false :=
    Bool.eq_false_iff.2 fun hshown => hreports (hrespects.remark hshown)
  induction hp generalizing copy copy' agree with
  | satisfy accepts expected => exact .satisfy accepts expected
  | spelled tests expected => exact .spelled expected tests false
  | endOfInput => exact .endOfInput _
  | fail message => exact .fail (fun _ => rfl) (fun _ => rfl) none false false
  | value v => exact .success v false
  | position =>
      rw [eval_position, eval_position]
      refine .getState fun s s' hplace _ => ?_
      rw [State.position, c.position_eq hplace]
      exact .success _ false
  | recursive rule hnode =>
      rw [eval_recursive, eval_recursive]
      exact .resolve hcopy (fun hsame => hnode (hrespects.sharing hsame)) fun k k' hk =>
        hcall _ rule k k' hk agree
  | shared hp ih => exact ih (fun _ => rfl) agree
  | adapt f hp ih =>
      rw [eval_adapt, eval_adapt]
      exact .map (ih hcopy agree) (Outcome.isSuccess_map f)
  | map f hp ih =>
      rw [eval_map, eval_map]
      exact .component (Alike.map f hp).expected_eq (ih hcopy agree) fun _ _ => .success _ _
  | observe remark hp ih =>
      rw [eval_observe, eval_observe]
      exact .component (Alike.observe remark hp).expected_eq (ih hcopy agree) fun _ _ =>
        .emit _ (.success _ _)
  | map2 f hp hq ihp ihq =>
      rw [eval_map2, eval_map2]
      have hexpected := (Alike.map2 f hp hq).expected_eq
      exact .component hexpected (ihp hcopy agree) fun _ _ =>
        .component hexpected (ihq hcopy agree) fun _ _ => .success _ _
  | map3 f hp hq hr ihp ihq ihr =>
      rw [eval_map3, eval_map3]
      have hexpected := (Alike.map3 f hp hq hr).expected_eq
      exact .component hexpected (ihp hcopy agree) fun _ _ =>
        .component hexpected (ihq hcopy agree) fun _ _ =>
          .component hexpected (ihr hcopy agree) fun _ _ => .success _ _
  | map4 f hp hq hr hs ihp ihq ihr ihs =>
      rw [eval_map4, eval_map4]
      have hexpected := (Alike.map4 f hp hq hr hs).expected_eq
      exact .component hexpected (ihp hcopy agree) fun _ _ =>
        .component hexpected (ihq hcopy agree) fun _ _ =>
          .component hexpected (ihr hcopy agree) fun _ _ =>
            .component hexpected (ihs hcopy agree) fun _ _ => .success _ _
  | all hps ih =>
      rw [eval_all, eval_all]
      exact .all (Alike.all hps).expected_eq fun i => ih i hcopy agree
  | bind f hp hnext ihp ihnext =>
      rw [eval_bind, eval_bind]
      exact .dependent (ihp hcopy agree) fun v => ihnext v hcopy agree
  | choice hps ih =>
      rw [eval_choice, eval_choice]
      exact .choice (Alike.choice hps).expected_eq fun i agree => ih i hcopy agree
  | negate hmessage hp ih =>
      rw [eval_negate, eval_negate]
      exact .negate (Alike.negate hmessage hp).expected_eq hmessage (ih hcopy agree)
  | check accepts message hp ih =>
      rw [eval_check, eval_check]
      exact .check (Alike.check accepts message hp).expected_eq (ih hcopy agree)
  | withExpected expected hp ih =>
      rw [eval_withExpected, eval_withExpected]
      exact .component (fun _ => rfl) (ih hcopy agree) fun _ _ => .success _ _
  | lookahead hp ih =>
      exact .lookahead (ih hcopy agree) (keepsBookmarks_eval hbookmarks _ copy)
        (keepsBookmarks_eval hbookmarks' _ copy')
  | safe hp ih =>
      exact .safe (ih hcopy agree) (keepsBookmarks_eval hbookmarks _ copy)
        (keepsBookmarks_eval hbookmarks' _ copy')
  | chain seed combine hname hp ih => exact .chain hrespects hname (ih hcopy agree)
  | separated hname hp hseparator ihp ihseparator =>
      refine .separated hrespects hname (fun hreports => ?_) (ihp hcopy agree)
        (ihseparator hcopy agree)
      rw [hp.expected_eq hreports, hseparator.expected_eq hreports]
  | optionallyTerminated hname hp hseparator ihp ihseparator =>
      exact .optionallyTerminated hrespects hname (ihp hcopy agree) (ihseparator hcopy agree)
  -- a wrapper stands on one side only, so that the other parser has no step to match
  | withExpected_left expected hreports hp ih =>
      exact .of_wraps_left hreports (wraps_withExpected ..) (ih hcopy agree)
  | withExpected_right expected hreports hp ih =>
      exact .of_wraps_right hreports (wraps_withExpected ..) (ih hcopy agree)
  | observe_left remark hreports hp ih =>
      exact .of_wraps_left hreports (wraps_observe _ _ _ (hhidden hreports) ..) (ih hcopy agree)
  | observe_right remark hreports hp ih =>
      exact .of_wraps_right hreports (wraps_observe _ _ _ (hhidden hreports) ..) (ih hcopy agree)
  | map_id_left hreports hp ih =>
      exact .of_wraps_left hreports (wraps_map_id ..) (ih hcopy agree)
  | map_id_right hreports hp ih =>
      exact .of_wraps_right hreports (wraps_map_id ..) (ih hcopy agree)

theorem relates_calls (hrespects : c.Respects like) {rules rules' : Rules τ ρ ω}
    (hrules : ∀ (β : Type) (rule : ρ β), (rules β rule).Alike like (rules' β rule)) (depth : Nat)
    {β : Type} (rule : ρ β) {copy copy' : Nat} (hcopy : c.sameCells → copy = copy')
    (agree : Prop) :
    (calls c.ruler rules depth β rule copy).Relates c like agree
      (calls c.ruler' rules' depth β rule copy') := by
  induction depth generalizing β copy copy' agree with
  | zero => exact .stop (.same .unfinished)
  | succ depth ih =>
      exact relates_eval hrespects (fun _ rule _ _ hcopy agree => ih rule hcopy agree)
        (fun _ rule copy => keepsBookmarks_calls c.ruler rules depth rule copy)
        (fun _ rule copy => keepsBookmarks_calls c.ruler' rules' depth rule copy)
        (hrules β rule) hcopy agree

/-- Parsers that are alike are related, whatever is known about the errors. -/
theorem relates_eval_calls (hrespects : c.Respects like) {rules rules' : Rules τ ρ ω}
    (hrules : ∀ (β : Type) (rule : ρ β), (rules β rule).Alike like (rules' β rule)) (depth : Nat)
    {p p' : Parser τ ρ ω α} (hp : p.Alike like p') {copy copy' : Nat}
    (hcopy : c.sameCells → copy = copy') (agree : Prop) :
    (p.eval c.ruler (calls c.ruler rules depth) copy).Relates c like agree
      (p'.eval c.ruler' (calls c.ruler' rules' depth) copy') :=
  relates_eval hrespects
    (fun _ rule _ _ hcopy agree => relates_calls hrespects hrules depth rule hcopy agree)
    (fun _ rule copy => keepsBookmarks_calls c.ruler rules depth rule copy)
    (fun _ rule copy => keepsBookmarks_calls c.ruler' rules' depth rule copy) hp hcopy agree

/-- A parser couples with itself, whatever is known about the errors. -/
theorem couples_eval_calls (c : Coupling τ ω) (rules : Rules τ ρ ω) (depth : Nat)
    (p : Parser τ ρ ω α) {copy copy' : Nat} (hcopy : c.sameCells → copy = copy') (agree : Prop) :
    (p.eval c.ruler (calls c.ruler rules depth) copy).Couples c agree
      (p.eval c.ruler' (calls c.ruler' rules depth) copy') := by
  have hrules (β : Type) (rule : ρ β) : (rules β rule).Alike .same (rules β rule) := .refl _ _
  exact (relates_eval_calls c.respects_same hrules depth (.refl _ p) hcopy agree).couples

end Parser

end CommittedChoice
