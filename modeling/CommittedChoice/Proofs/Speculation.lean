import CommittedChoice.Proofs.Noninterference

set_option autoImplicit false

/-! # The laws of speculation

A speculation puts a bookmark on the stack, runs its body, and goes back to the bookmark or drops it.
Nothing of this is to be seen from outside: the body neither looks at the bookmarks below nor leaves
any of its own (`Run.IgnoresBookmarks`), so that the bookmark that is on top in the end is the one
that was put there. What remains is that `safe` takes a failure back to where it started
(`Run.run_safe`), that `lookahead` does the same with a success (`Run.run_lookahead`), and that both
leave all else as it is. From these two equations the laws follow by cases over the answer of the
body. They are equations of computations: replies, states, events and resolved parsers are the same.
The main statement is `Parser.speculation_laws`. -/

namespace CommittedChoice

variable {τ ω α : Type} {ρ : Type → Type} {ruler : Ruler τ}

/-- The world with other bookmarks. -/
def World.withBookmarks (w : World τ ω) (bookmarks : List (Place τ)) : World τ ω :=
  { w with state := { w.state with bookmarks } }

/-- The world taken back to the place of an earlier one. All else stays, the error included. -/
def World.backTo (w earlier : World τ ω) : World τ ω :=
  { w with state := { w.state with place := earlier.state.place } }

/-! ## Bookmarks do not matter -/

/-- Two parses of the same input that differ in their bookmarks and in nothing else. -/
def Coupling.upToBookmarks (ω : Type) (ruler : Ruler τ) : Coupling τ ω :=
  { byPlace ω ruler with
    shown := fun _ => true
    sameCells := True
    sameCells_of_shown := fun _ => trivial }

namespace Run

/-- Whatever bookmarks are on the stack, the computation does the same and leaves them there. -/
def IgnoresBookmarks (x : Run τ ω α) : Prop :=
  ∀ w bookmarks, x.run (w.withBookmarks bookmarks) =
    ((x.run w).1, (x.run w).2.withBookmarks bookmarks)

theorem IgnoresBookmarks.of_couples {x : Run τ ω (Outcome α)} (hkeeps : x.KeepsBookmarks)
    (hcouples : x.Couples (Coupling.upToBookmarks ω ruler) True x) : x.IgnoresBookmarks := by
  intro w bookmarks
  have hstart : (Coupling.upToBookmarks ω ruler).Joins True w (w.withBookmarks bookmarks) :=
    ⟨rfl, rfl, fun _ => rfl, fun _ => rfl⟩
  obtain ⟨r, u, u', hrun, hrun', hend⟩ := hcouples hstart
  have hkept : u'.state.bookmarks = bookmarks := by
    have hstack := hkeeps (w.withBookmarks bookmarks)
    rwa [hrun'] at hstack
  have hplace : u.state.place = u'.state.place := hend.place
  have herror : u.state.error = u'.state.error := hend.error (.inl trivial)
  have hcells : u.cells = u'.cells := hend.cells trivial
  have hall (events : List (Event ω)) :
      events.filter (Coupling.upToBookmarks ω ruler).shown = events :=
    List.filter_eq_self.2 fun _ _ => rfl
  have hevents : u.events = u'.events := by
    rw [← hall u.events, hend.events, hall]
  have hworld : u' = u.withBookmarks bookmarks := by
    obtain ⟨⟨place', bookmarks', error'⟩, events', cells'⟩ := u'
    simp only at hplace herror hcells hevents hkept
    simp only [World.withBookmarks, hplace, herror, hcells, hevents, hkept]
  rw [hrun, hrun', hworld]

end Run

theorem Parser.ignoresBookmarks_eval_calls (ruler : Ruler τ) (rules : Rules τ ρ ω) (depth : Nat)
    (p : Parser τ ρ ω α) (copy : Nat) :
    (p.eval ruler (calls ruler rules depth) copy).IgnoresBookmarks :=
  .of_couples (keepsBookmarks_eval_calls ruler rules depth p copy)
    (couples_eval_calls (Coupling.upToBookmarks ω ruler) rules depth p (fun _ => rfl) True)

/-! ## Speculation without bookmarks -/

namespace Run

variable {x : Run τ ω (Outcome α)}

section Speculate

variable {finish : Outcome α → Run τ ω (Outcome α)} {w u : World τ ω}

/-- The stack is left as it was. -/
theorem IgnoresBookmarks.withBookmarks_eq (hx : x.IgnoresBookmarks)
    {r : Except Stop (Outcome α)} (hrun : x.run w = (r, u)) :
    u.withBookmarks w.state.bookmarks = u := by
  have hself : x.run w = ((x.run w).1, (x.run w).2.withBookmarks w.state.bookmarks) :=
    hx w w.state.bookmarks
  rw [hrun] at hself
  exact (Prod.mk.inj hself).2.symm

/-- With its bookmark on the stack, the body of a speculation runs as it does without. -/
theorem IgnoresBookmarks.run_pushBookmark (hx : x.IgnoresBookmarks)
    {r : Except Stop (Outcome α)} (hrun : x.run w = (r, u)) :
    x.run { w with state := w.state.pushBookmark } =
      (r, u.withBookmarks (w.state.place :: w.state.bookmarks)) := by
  have hpushed := hx w (w.state.place :: w.state.bookmarks)
  rw [hrun] at hpushed
  exact hpushed

theorem run_speculate_of_ok (hx : x.IgnoresBookmarks) {outcome : Outcome α}
    (hrun : x.run w = (.ok outcome, u)) :
    (speculate x finish).run w =
      (finish outcome).run (u.withBookmarks (w.state.place :: w.state.bookmarks)) := by
  simp only [speculate, hx.run_pushBookmark hrun]

theorem run_speculate_of_error (hx : x.IgnoresBookmarks) {reason : Stop}
    (hrun : x.run w = (.error reason, u)) : (speculate x finish).run w = (.error reason, u) := by
  simp only [speculate, hx.run_pushBookmark hrun]
  exact congrArg (Prod.mk _) (hx.withBookmarks_eq hrun)

end Speculate

/-- A failure is taken back to where it started, and any other answer is left as it is. -/
theorem run_safe (hx : x.IgnoresBookmarks) (w : World τ ω) :
    (safe x).run w = match x.run w with
      | (.ok (.failure _), u) => (.ok (.failure false), u.backTo w)
      | answer => answer := by
  rcases hrun : x.run w with ⟨reason | ⟨v, c⟩ | c, u⟩
  · exact run_speculate_of_error hx hrun
  · rw [safe, run_speculate_of_ok hx hrun]
    exact congrArg (Prod.mk _) (hx.withBookmarks_eq hrun)
  · rw [safe, run_speculate_of_ok hx hrun]
    exact congrArg (fun u : World τ ω => (_, u.backTo w)) (hx.withBookmarks_eq hrun)

/-- A success is taken back to where it started, and any other answer is left as it is. -/
theorem run_lookahead (hx : x.IgnoresBookmarks) (w : World τ ω) :
    (lookahead x).run w = match x.run w with
      | (.ok (.success v _), u) => (.ok (.success v false), u.backTo w)
      | answer => answer := by
  rcases hrun : x.run w with ⟨reason | ⟨v, c⟩ | c, u⟩
  · exact run_speculate_of_error hx hrun
  · rw [lookahead, run_speculate_of_ok hx hrun]
    exact congrArg (fun u : World τ ω => (_, u.backTo w)) (hx.withBookmarks_eq hrun)
  · rw [lookahead, run_speculate_of_ok hx hrun]
    exact congrArg (Prod.mk _) (hx.withBookmarks_eq hrun)

theorem IgnoresBookmarks.safe (hx : x.IgnoresBookmarks) : (Run.safe x).IgnoresBookmarks := by
  intro w bookmarks
  rw [run_safe hx, run_safe hx, hx w bookmarks]
  rcases x.run w with ⟨reason | ⟨v, c⟩ | c, u⟩ <;> rfl

theorem IgnoresBookmarks.lookahead (hx : x.IgnoresBookmarks) :
    (Run.lookahead x).IgnoresBookmarks := by
  intro w bookmarks
  rw [run_lookahead hx, run_lookahead hx, hx w bookmarks]
  rcases x.run w with ⟨reason | ⟨v, c⟩ | c, u⟩ <;> rfl

/-! ## Laws -/

theorem safe_safe (hx : x.IgnoresBookmarks) : safe (safe x) = safe x := by
  ext w : 2
  rw [run_safe hx.safe, run_safe hx]
  rcases x.run w with ⟨reason | ⟨v, c⟩ | c, u⟩ <;> rfl

theorem lookahead_lookahead (hx : x.IgnoresBookmarks) : lookahead (lookahead x) = lookahead x := by
  ext w : 2
  rw [run_lookahead hx.lookahead, run_lookahead hx]
  rcases x.run w with ⟨reason | ⟨v, c⟩ | c, u⟩ <;> rfl

/-- Both outcomes are taken back to where they started, and neither has consumed. -/
theorem run_safe_lookahead (hx : x.IgnoresBookmarks) (w : World τ ω) :
    (safe (lookahead x)).run w = match x.run w with
      | (.ok (.success v _), u) => (.ok (.success v false), u.backTo w)
      | (.ok (.failure _), u) => (.ok (.failure false), u.backTo w)
      | (.error reason, u) => (.error reason, u) := by
  rw [run_safe hx.lookahead, run_lookahead hx]
  rcases x.run w with ⟨reason | ⟨v, c⟩ | c, u⟩ <;> rfl

theorem safe_lookahead (hx : x.IgnoresBookmarks) : safe (lookahead x) = lookahead (safe x) := by
  ext w : 2
  rw [run_safe_lookahead hx, run_lookahead hx.safe, run_safe hx]
  rcases x.run w with ⟨reason | ⟨v, c⟩ | c, u⟩ <;> rfl

theorem run_safe_eq_success_iff (hx : x.IgnoresBookmarks) {w u : World τ ω} {v : α} {c : Bool} :
    (safe x).run w = (.ok (.success v c), u) ↔ x.run w = (.ok (.success v c), u) := by
  rw [run_safe hx]
  rcases x.run w with ⟨reason | ⟨v, c⟩ | c, u⟩ <;> simp

theorem run_negate (expected : List (Expected τ)) (message : String) (x : Run τ ω (Outcome α))
    (w : World τ ω) :
    (negate expected message x).run w = match x.run w with
      | (.ok (.success _ c), u) =>
          (.ok (.failure c), { u with state := { u.state with
            error := ⟨⟨w.state.peek, w.state.position, false⟩, expected, message⟩ } })
      | (.ok (.failure c), u) => (.ok (.success () c), u)
      | (.error reason, u) => (.error reason, u) := by
  rw [negate, run_bind_of_ok (run_getState w)]
  rcases hrun : x.run w with ⟨reason | ⟨v, c⟩ | c, u⟩
  · rw [run_bind_of_error hrun]
  · rw [run_bind_of_ok hrun]
    rfl
  · rw [run_bind_of_ok hrun]
    rfl

/-- What is negated twice answers as it does by itself, but for its value, and it ends at the same
    place. -/
theorem run_negate_negate (expected expected' : List (Expected τ)) (message message' : String)
    (x : Run τ ω (Outcome α)) (w : World τ ω) :
    let answer := (negate expected message (negate expected' message' x)).run w
    answer.1 = (x.run w).1.map (Outcome.map fun _ => ()) ∧
      answer.2.state.place = (x.run w).2.state.place := by
  simp only [run_negate]
  rcases x.run w with ⟨reason | ⟨v, c⟩ | c, u⟩ <;> exact ⟨rfl, rfl⟩

end Run

namespace Parser

/-- **Laws of speculation.** For every parser, from every state and whatever bookmarks are on it:

    to be safe twice is to be safe once, and to look ahead twice is to look ahead once; to be safe
    while looking ahead and to look ahead while being safe are the same. These are equations of
    computations, so that the replies are the same and so are the worlds in the end. What is both
    safe and a lookahead never consumes: it ends at the place where it started, with the value of
    the parser where that succeeds, and with the error of the parser where that fails.

    A safe parser succeeds exactly if the parser does, with the same value and flag and in the same
    world. A parser that is negated twice, with whatever messages, succeeds, fails and stops exactly
    if the parser does, with the same flag and at the same cursor and position. -/
theorem speculation_laws (ruler : Ruler τ) (rules : Rules τ ρ ω) (depth : Nat)
    (p : Parser τ ρ ω α) (copy : Nat) :
    let meaning {β : Type} (q : Parser τ ρ ω β) := q.eval ruler (calls ruler rules depth) copy
    meaning (safe (safe p)) = meaning (safe p) ∧
    meaning (lookahead (lookahead p)) = meaning (lookahead p) ∧
    meaning (safe (lookahead p)) = meaning (lookahead (safe p)) ∧
    (∀ w, (meaning (safe (lookahead p))).run w = match (meaning p).run w with
      | (.ok (.success v _), u) => (.ok (.success v false), u.backTo w)
      | (.ok (.failure _), u) => (.ok (.failure false), u.backTo w)
      | (.error reason, u) => (.error reason, u)) ∧
    (∀ w u v c, (meaning (safe p)).run w = (.ok (.success v c), u) ↔
      (meaning p).run w = (.ok (.success v c), u)) ∧
    ∀ message message' w,
      let answer := (meaning (negate message (negate message' p))).run w
      answer.1 = ((meaning p).run w).1.map (Outcome.map fun _ => ()) ∧
        answer.2.state.cursor = ((meaning p).run w).2.state.cursor ∧
        answer.2.state.position = ((meaning p).run w).2.state.position := by
  intro meaning
  have hp : (meaning p).IgnoresBookmarks := ignoresBookmarks_eval_calls ruler rules depth p copy
  refine ⟨Run.safe_safe hp, Run.lookahead_lookahead hp, Run.safe_lookahead hp,
    Run.run_safe_lookahead hp, fun _ _ _ _ => Run.run_safe_eq_success_iff hp, ?_⟩
  intro message message' w
  obtain ⟨hreply, hplace⟩ := Run.run_negate_negate (negate message (negate message' p)).expected
    (negate message' p).expected message message' (meaning p) w
  exact ⟨hreply, congrArg Place.cursor hplace, congrArg Place.position hplace⟩

end Parser

end CommittedChoice
