import CommittedChoice.Parser.Eval

set_option autoImplicit false

/-! # The discipline of bookmarks

Speculation goes back to the innermost bookmark, so it reaches its own one only if everything that
ran in between has left the stack as it was. `Run.KeepsBookmarks` says this of a computation, for
every world and every way to end. It holds of the steps of which parsers are made and is kept by
everything that combines computations; the one place where the stack does change is
`Run.speculate`, which takes its bookmark away on every path. The main statement is
`Parser.bookmarks_eval_calls`: a parser of any grammar returns the stack that it was given. -/

namespace CommittedChoice

variable {τ ω α β γ : Type}

/-! ## Computations that keep the stack -/

/-- However the computation ends, the stack of bookmarks is the one it started with. -/
def Run.KeepsBookmarks (x : Run τ ω α) : Prop :=
  ∀ w, (x.run w).2.state.bookmarks = w.state.bookmarks

namespace Run.KeepsBookmarks

theorem pure (a : α) : (Pure.pure a : Run τ ω α).KeepsBookmarks := fun _ => rfl

theorem stop (reason : Stop) : (Run.stop reason : Run τ ω α).KeepsBookmarks := fun _ => rfl

theorem getState : (Run.getState : Run τ ω (State τ)).KeepsBookmarks := fun _ => rfl

theorem emit (event : Event ω) : (Run.emit event : Run τ ω Unit).KeepsBookmarks := fun _ => rfl

theorem modifyState {f : State τ → State τ} (hf : ∀ s, (f s).bookmarks = s.bookmarks) :
    (Run.modifyState f : Run τ ω Unit).KeepsBookmarks := fun w => hf w.state

theorem bind {x : Run τ ω α} {f : α → Run τ ω β} (hx : x.KeepsBookmarks)
    (hf : ∀ a, (f a).KeepsBookmarks) : (x >>= f).KeepsBookmarks := by
  intro w
  have hw := hx w
  rcases hrun : x.run w with ⟨_ | a, w'⟩
  · rw [run_bind_of_error hrun]
    rwa [hrun] at hw
  · rw [run_bind_of_ok hrun, hf a w']
    rwa [hrun] at hw

theorem advance (ruler : Ruler τ) : (Run.advance ruler : Run τ ω Unit).KeepsBookmarks := by
  intro w
  simp only [Run.advance]
  split
  · next s hs =>
      simp only [State.advance?, Option.map_eq_some_iff] at hs
      -- reading gives the state another place and nothing else
      obtain ⟨q, -, rfl⟩ := hs
      rfl
  · rfl

theorem resolve (cell : Cell) (sharing : Sharing) :
    (Run.resolve cell sharing : Run τ ω Nat).KeepsBookmarks := by
  intro w
  simp only [Run.resolve]
  split <;> rfl

/-! ## Failing -/

theorem fail (expected : List (Expected τ)) (unexpected : Option τ) (message : String)
    (consumed atEnd : Bool) :
    (Run.fail expected unexpected message consumed atEnd : Run τ ω (Outcome α)).KeepsBookmarks :=
  bind (modifyState fun _ => rfl) fun _ => pure _

theorem failAtEnd (expected : List (Expected τ)) (consumed : Bool) :
    (Run.failAtEnd expected consumed : Run τ ω (Outcome α)).KeepsBookmarks :=
  bind (modifyState fun _ => rfl) fun _ => pure _

theorem failAtToken (expected : List (Expected τ)) (t : τ) (consumed : Bool) :
    (Run.failAtToken expected t consumed : Run τ ω (Outcome α)).KeepsBookmarks :=
  bind (modifyState fun _ => rfl) fun _ => pure _

theorem forward (expected : List (Expected τ)) (consumed : Bool) :
    (Run.forward expected consumed : Run τ ω (Outcome α)).KeepsBookmarks :=
  bind (modifyState fun _ => rfl) fun _ => pure _

theorem loopFault (loop : Loop) (parser : String) :
    (Run.loopFault loop parser : Run τ ω α).KeepsBookmarks :=
  bind getState fun _ => bind (emit _) fun _ => stop _

/-! ## Leaves -/

theorem satisfy (ruler : Ruler τ) (accepts : τ → Bool) (expected : List (Expected τ)) :
    (Run.satisfy ruler accepts expected : Run τ ω (Outcome τ)).KeepsBookmarks := by
  refine bind getState fun s => ?_
  split
  · exact failAtEnd expected false
  · split
    · exact bind (advance ruler) fun _ => pure _
    · exact failAtToken expected _ false

theorem spelled (ruler : Ruler τ) (expected : List (Expected τ)) (earlier : Bool)
    (tests : List (τ → Bool)) :
    (Run.spelled ruler expected earlier tests : Run τ ω (Outcome (List τ))).KeepsBookmarks := by
  induction tests generalizing earlier with
  | nil => exact pure _
  | cons accepts tests ih =>
      refine bind getState fun s => ?_
      split
      · exact failAtEnd expected earlier
      · split
        · exact bind (advance ruler) fun _ => bind (ih true) fun _ => pure _
        · exact failAtToken expected _ earlier

theorem endOfInput (expected : List (Expected τ)) :
    (Run.endOfInput expected : Run τ ω (Outcome Unit)).KeepsBookmarks := by
  refine bind getState fun s => ?_
  split
  · exact pure _
  · exact fail expected _ _ false false

/-! ## Sequences -/

theorem component {expected : List (Expected τ)} {earlier : Bool} {x : Run τ ω (Outcome α)}
    {next : α → Bool → Run τ ω (Outcome β)} (hx : x.KeepsBookmarks)
    (hnext : ∀ v consumed, (next v consumed).KeepsBookmarks) :
    (Run.component expected earlier x next).KeepsBookmarks := by
  refine bind hx fun outcome => ?_
  cases outcome with
  | success v consumed => exact hnext v (earlier || consumed)
  | failure consumed => exact forward expected (earlier || consumed)

theorem all {expected : List (Expected τ)} {earlier : Bool} {xs : List (Run τ ω (Outcome α))}
    (hxs : ∀ x ∈ xs, x.KeepsBookmarks) : (Run.all expected earlier xs).KeepsBookmarks := by
  induction xs generalizing earlier with
  | nil => exact pure _
  | cons x xs ih =>
      have htail : ∀ y ∈ xs, y.KeepsBookmarks := fun y hy => hxs y (List.mem_cons_of_mem x hy)
      exact component (hxs x List.mem_cons_self) fun _ _ => bind (ih htail) fun _ => pure _

theorem dependent {f : α → β → γ} {x : Run τ ω (Outcome α)} {next : α → Run τ ω (Outcome β)}
    (hx : x.KeepsBookmarks) (hnext : ∀ v, (next v).KeepsBookmarks) :
    (Run.dependent f x next).KeepsBookmarks := by
  refine bind hx fun outcome => ?_
  cases outcome with
  | success v consumed => exact bind (hnext v) fun _ => pure _
  | failure consumed => exact pure _

/-! ## Choice and conditions -/

theorem alternatives {exhausted : Option (ParseError τ) → Run τ ω (Outcome α)}
    {best : Option (ParseError τ)} {xs : List (Run τ ω (Outcome α))}
    (hxs : ∀ x ∈ xs, x.KeepsBookmarks) (hexhausted : ∀ e, (exhausted e).KeepsBookmarks) :
    (Run.alternatives exhausted best xs).KeepsBookmarks := by
  induction xs generalizing best with
  | nil => exact hexhausted best
  | cons x xs ih =>
      have htail : ∀ y ∈ xs, y.KeepsBookmarks := fun y hy => hxs y (List.mem_cons_of_mem x hy)
      refine bind (hxs x List.mem_cons_self) fun outcome => ?_
      split
      · exact pure _
      · exact bind getState fun _ => ih htail

theorem choice {expected : List (Expected τ)} {xs : List (Run τ ω (Outcome α))}
    (hxs : ∀ x ∈ xs, x.KeepsBookmarks) : (Run.choice expected xs).KeepsBookmarks := by
  refine alternatives hxs fun e => ?_
  cases e with
  | none => exact fail expected none _ false false
  | some error =>
      exact bind (emit _) fun _ => bind (modifyState fun _ => rfl) fun _ => forward expected false

theorem negate {expected : List (Expected τ)} {message : String} {x : Run τ ω (Outcome α)}
    (hx : x.KeepsBookmarks) : (Run.negate expected message x).KeepsBookmarks := by
  refine bind getState fun before => bind hx fun outcome => ?_
  cases outcome with
  | success v consumed => exact bind (modifyState fun _ => rfl) fun _ => pure _
  | failure consumed => exact pure _

theorem check {expected : List (Expected τ)} {accepts : α → Bool} {message : α → String}
    {x : Run τ ω (Outcome α)} (hx : x.KeepsBookmarks) :
    (Run.check expected accepts message x).KeepsBookmarks := by
  refine bind hx fun outcome => ?_
  cases outcome with
  | success v consumed =>
      show (if accepts v then _ else _ : Run τ ω (Outcome α)).KeepsBookmarks
      split
      · exact pure _
      · exact fail expected none (message v) consumed false
  | failure consumed => exact pure _

/-! ## Speculation -/

/-- The bookmark of a speculation is on top when `finish` starts, and `finish` has to remove it. -/
theorem speculate {x : Run τ ω (Outcome α)} {finish : Outcome α → Run τ ω (Outcome β)}
    (hx : x.KeepsBookmarks)
    (hfinish : ∀ outcome w,
      ((finish outcome).run w).2.state.bookmarks = w.state.bookmarks.tail) :
    (Run.speculate x finish).KeepsBookmarks := by
  intro w
  have hw := hx { w with state := w.state.pushBookmark }
  simp only [Run.speculate]
  rcases hrun : x.run { w with state := w.state.pushBookmark } with ⟨_ | outcome, w'⟩
  · -- a stop leaves through the early exit, which pops the bookmark
    rw [hrun] at hw
    show w'.state.bookmarks.tail = w.state.bookmarks
    rw [hw]
    rfl
  · -- with an outcome, it is up to `finish` to take the bookmark away
    rw [hrun] at hw
    show ((finish outcome).run w').2.state.bookmarks = w.state.bookmarks
    rw [hfinish outcome w', hw]
    rfl

theorem lookahead {x : Run τ ω (Outcome α)} (hx : x.KeepsBookmarks) :
    (Run.lookahead x).KeepsBookmarks := by
  refine speculate hx fun outcome w => ?_
  cases outcome with
  | success v consumed => exact State.bookmarks_rewind w.state
  | failure consumed => rfl

theorem safe {x : Run τ ω (Outcome α)} (hx : x.KeepsBookmarks) : (Run.safe x).KeepsBookmarks := by
  refine speculate hx fun outcome w => ?_
  cases outcome with
  | success v consumed => rfl
  | failure consumed => exact State.bookmarks_rewind w.state

/-! ## Repetition -/

theorem bound : (Run.bound : Run τ ω Nat).KeepsBookmarks := fun _ => rfl

theorem rounds {loop : Loop} {name : String} {combine : β → α → β} {x : Run τ ω (Outcome α)}
    (hx : x.KeepsBookmarks) (fuel : Nat) (acc : β) (consumed : Bool) (count : Nat) :
    (Run.rounds loop name combine x fuel acc consumed count).KeepsBookmarks := by
  induction fuel generalizing acc consumed count with
  | zero => exact stop _
  | succ fuel ih =>
      refine bind hx fun outcome => ?_
      rcases outcome with ⟨v, _ | _⟩ | _ | _
      · exact loopFault loop name
      · exact ih (combine acc v) true (count + 1)
      · exact bind (emit _) fun _ => pure _
      · exact pure _

theorem chain {name : String} {seed : β} {combine : β → α → β} {x : Run τ ω (Outcome α)}
    (hx : x.KeepsBookmarks) : (Run.chain name seed combine x).KeepsBookmarks := by
  refine bind hx fun outcome => ?_
  cases outcome with
  | success v consumed => exact bind bound fun fuel => rounds hx fuel _ consumed 1
  | failure consumed => exact pure _

theorem continuation {expected : List (Expected τ)} {x : Run τ ω (Outcome α)}
    {separator : Run τ ω (Outcome β)} (hx : x.KeepsBookmarks)
    (hseparator : separator.KeepsBookmarks) :
    (Run.continuation expected separator x).KeepsBookmarks :=
  component hseparator fun _ _ => component hx fun _ _ => pure _

theorem separated {name : String} {expected : List (Expected τ)} {x : Run τ ω (Outcome α)}
    {separator : Run τ ω (Outcome β)} (hx : x.KeepsBookmarks)
    (hseparator : separator.KeepsBookmarks) :
    (Run.separated name expected x separator).KeepsBookmarks := by
  refine bind hx fun outcome => ?_
  cases outcome with
  | success v consumed =>
      exact bind bound fun fuel =>
        bind (rounds (continuation hx hseparator) fuel [v] consumed 1) fun _ => pure _
  | failure consumed => exact pure _

theorem optionallyTerminatedRounds {name : String} {x : Run τ ω (Outcome α)}
    {separator : Run τ ω (Outcome β)} (hx : x.KeepsBookmarks)
    (hseparator : separator.KeepsBookmarks) (fuel : Nat) (found : List α) (consumed : Bool) :
    (Run.optionallyTerminatedRounds name x separator fuel found consumed).KeepsBookmarks := by
  induction fuel generalizing found consumed with
  | zero => exact stop _
  | succ fuel ih =>
      refine bind hseparator fun outcome => ?_
      rcases outcome with ⟨u, separatorConsumed⟩ | _ | _
      · refine bind hx fun outcome => ?_
        rcases outcome with ⟨v, valueConsumed⟩ | _ | _
        · show (if separatorConsumed || valueConsumed then _ else _ :
            Run τ ω (Outcome (List α))).KeepsBookmarks
          split
          · exact ih (v :: found) true
          · exact loopFault .optionallyTerminated name
        · exact bind (emit _) fun _ => pure _
        · exact pure _
      · exact pure _
      · exact pure _

theorem optionallyTerminated {name : String} {x : Run τ ω (Outcome α)}
    {separator : Run τ ω (Outcome β)} (hx : x.KeepsBookmarks)
    (hseparator : separator.KeepsBookmarks) :
    (Run.optionallyTerminated name x separator).KeepsBookmarks := by
  refine bind hx fun outcome => ?_
  cases outcome with
  | success v consumed =>
      exact bind bound fun fuel => optionallyTerminatedRounds hx hseparator fuel [v] consumed
  | failure consumed => exact pure _

end Run.KeepsBookmarks

/-! ## Parsers -/

namespace Parser

variable {ρ : Type → Type} {ruler : Ruler τ}

theorem keepsBookmarks_eval {call : Calls τ ρ ω}
    (hcall : ∀ (β : Type) (rule : ρ β) (copy : Nat), (call β rule copy).KeepsBookmarks)
    (p : Parser τ ρ ω α) (copy : Nat) : (p.eval ruler call copy).KeepsBookmarks := by
  induction p generalizing copy with
  | satisfy accepts expected => exact .satisfy ruler accepts expected
  | spelled tests expected => exact .spelled ruler expected false tests
  | endOfInput => exact .endOfInput _
  | fail message => exact .fail _ none message false false
  | value v => exact .pure _
  | position =>
      rw [eval_position]
      exact .bind .getState fun _ => .pure _
  | recursive index sharing rule =>
      rw [eval_recursive]
      exact .bind (.resolve _ sharing) fun copy => hcall _ rule copy
  | shared p ih => exact ih 0
  | adapt f p ih =>
      rw [eval_adapt]
      exact .bind (ih copy) fun _ => .pure _
  | map f p ih =>
      rw [eval_map]
      exact .component (ih copy) fun _ _ => .pure _
  | observe remark p ih =>
      rw [eval_observe]
      exact .component (ih copy) fun _ _ => .bind (.emit _) fun _ => .pure _
  | map2 f p q ihp ihq =>
      rw [eval_map2]
      exact .component (ihp copy) fun _ _ => .component (ihq copy) fun _ _ => .pure _
  | map3 f p q r ihp ihq ihr =>
      rw [eval_map3]
      exact .component (ihp copy) fun _ _ => .component (ihq copy) fun _ _ =>
        .component (ihr copy) fun _ _ => .pure _
  | map4 f p q r s ihp ihq ihr ihs =>
      rw [eval_map4]
      exact .component (ihp copy) fun _ _ => .component (ihq copy) fun _ _ =>
        .component (ihr copy) fun _ _ => .component (ihs copy) fun _ _ => .pure _
  | all n ps ih =>
      rw [eval_all]
      refine .all fun x hx => ?_
      obtain ⟨i, rfl⟩ := List.mem_ofFn.1 hx
      exact ih i copy
  | bind f p next ihp ihnext =>
      rw [eval_bind]
      exact .dependent (ihp copy) fun v => ihnext v copy
  | choice n ps ih =>
      rw [eval_choice]
      refine .choice fun x hx => ?_
      obtain ⟨i, rfl⟩ := List.mem_ofFn.1 hx
      exact ih i copy
  | negate message p ih =>
      rw [eval_negate]
      exact .negate (ih copy)
  | check accepts message p ih =>
      rw [eval_check]
      exact .check (ih copy)
  | withExpected expected p ih =>
      rw [eval_withExpected]
      exact .component (ih copy) fun _ _ => .pure _
  | lookahead p ih => exact .lookahead (ih copy)
  | safe p ih => exact .safe (ih copy)
  | chain name seed combine p ih => exact .chain (ih copy)
  | separated name p separator ihp ihseparator => exact .separated (ihp copy) (ihseparator copy)
  | optionallyTerminated name p separator ihp ihseparator =>
      exact .optionallyTerminated (ihp copy) (ihseparator copy)

theorem keepsBookmarks_calls (ruler : Ruler τ) (rules : Rules τ ρ ω) (depth : Nat) {β : Type}
    (rule : ρ β) (copy : Nat) : (calls ruler rules depth β rule copy).KeepsBookmarks := by
  induction depth generalizing β copy with
  | zero => exact .stop _
  | succ depth ih => exact keepsBookmarks_eval (fun _ rule copy => ih rule copy) _ copy

theorem keepsBookmarks_eval_calls (ruler : Ruler τ) (rules : Rules τ ρ ω) (depth : Nat)
    (p : Parser τ ρ ω α) (copy : Nat) :
    (p.eval ruler (calls ruler rules depth) copy).KeepsBookmarks :=
  keepsBookmarks_eval (fun _ rule copy => keepsBookmarks_calls ruler rules depth rule copy) p copy

/-- **Bookmark discipline.** Whatever is on the stack when a parser starts, the same bookmarks in the
    same order are on it when the parser ends, be it with a success, a failure or a stop at any
    depth. -/
theorem bookmarks_eval_calls (ruler : Ruler τ) (rules : Rules τ ρ ω) (depth : Nat)
    (p : Parser τ ρ ω α) (copy : Nat) (w : World τ ω) :
    ((p.eval ruler (calls ruler rules depth) copy).run w).2.state.bookmarks =
      w.state.bookmarks :=
  keepsBookmarks_eval_calls ruler rules depth p copy w

end Parser

end CommittedChoice
