import CommittedChoice.Proofs.SeparatedLists

set_option autoImplicit false

/-! # One sequence, many shapes

Parsers can be put in order by a node for one, two, three or four of them, by a node for a list, and,
for single tokens, by a node for a run of tokens. Each counts consumption and reports failures for
itself, and yet they are interchangeable: a sequence may be built from smaller ones in any grouping.

All of them are made of `Run.component`, and the laws of that one step carry everything here. A
component that is itself a sequence can be taken apart (`Run.component_component`), because a report
by the inner sequence is overwritten by the outer one; and a list of components is one component after
another (`Run.all_append`). What the nodes expect agrees because welding is done once: the
expectations of a sequence are not changed by being welded again (`Expected.concat_concat`). The main
statement is `Parser.sequencing_agrees`. -/

namespace CommittedChoice

variable {τ ω α β γ : Type} {ρ : Type → Type}

/-! ## Welding twice -/

namespace Expected

theorem isProper_of_mem_closeRun {run : List τ} {entry : Expected τ}
    (h : entry ∈ closeRun run) : entry.isProper = true := by
  cases run with
  | nil => cases h
  | cons t run =>
      rw [closeRun, if_neg (by simp), List.mem_singleton] at h
      rw [h]
      rfl

/-- Welding proper entries gives proper entries. -/
theorem isProper_of_mem_weld (lists : List (List (Expected τ)))
    (hlists : ∀ entries ∈ lists, ∀ entry ∈ entries, entry.isProper = true) :
    ∀ run, ∀ entry ∈ weld run lists, entry.isProper = true := by
  intro run entry hentry
  fun_induction weld run lists with
  | case1 run => exact isProper_of_mem_closeRun hentry
  | case2 run ts rest ih => exact ih (fun entries h => hlists entries (.tail _ h)) hentry
  | case3 run entries rest _ ih =>
      rcases List.mem_append.1 hentry with hentry | hentry
      · rcases List.mem_append.1 hentry with hentry | hentry
        · exact isProper_of_mem_closeRun hentry
        · exact hlists entries (.head _) entry hentry
      · exact ih (fun entries h => hlists entries (.tail _ h)) hentry

theorem isProper_of_mem_proper {lists : List (List (Expected τ))} {entries : List (Expected τ)}
    {entry : Expected τ} (hentries : entries ∈ proper lists) (hentry : entry ∈ entries) :
    entry.isProper = true := by
  obtain ⟨list, -, rfl⟩ := List.mem_map.1 (List.mem_filter.1 hentries).1
  exact (List.mem_filter.1 hentry).2

theorem isProper_of_mem_concat {lists : List (List (Expected τ))} {entry : Expected τ}
    (h : entry ∈ concat lists) : entry.isProper = true :=
  isProper_of_mem_weld (proper lists) (fun _ hentries _ => isProper_of_mem_proper hentries) []
    entry h

/-- A single component whose entries are proper is left as it is. -/
theorem concat_singleton {entries : List (Expected τ)}
    (h : ∀ entry ∈ entries, entry.isProper = true) : concat [entries] = entries := by
  have hfilter : entries.filter isProper = entries := List.filter_eq_self.2 h
  match entries, h, hfilter with
  | [], _, _ => rfl
  | [.tokens []], h, _ => simp [isProper] at h
  | [.tokens (_ :: _)], _, _ => rfl
  | [.labelled _ _], _, _ => rfl
  | [.endOfInput], _, _ => rfl
  | [.noInput], _, _ => rfl
  | e :: e' :: rest, _, hfilter =>
      simp [concat, proper, hfilter, weld, closeRun]

/-- The expectations of a sequence do not change when it is the only component of another one. -/
theorem concat_concat (lists : List (List (Expected τ))) :
    concat [concat lists] = concat lists :=
  concat_singleton fun _ => isProper_of_mem_concat

theorem weld_tokens (run ts : List τ) :
    weld run (ts.map fun t => [tokens [t]]) = closeRun (run ++ ts) := by
  induction ts generalizing run with
  | nil => rw [List.append_nil, List.map_nil, weld]
  | cons t ts ih => rw [List.map_cons, weld, ih, List.append_assoc, List.singleton_append]

/-- Tokens one by one are expected as a run. -/
theorem concat_tokens {ts : List τ} (h : ts ≠ []) :
    concat (ts.map fun t => [tokens [t]]) = [tokens ts] := by
  have hproper : proper (ts.map fun t => [tokens [t]]) = ts.map fun t => [tokens [t]] := by
    rw [proper, List.map_map]
    refine List.filter_eq_self.2 fun entries hentries => ?_
    obtain ⟨t, -, rfl⟩ := List.mem_map.1 hentries
    rfl
  rw [concat, hproper, weld_tokens, List.nil_append, closeRun, if_neg (by simpa using h)]

end Expected

/-! ## The laws of a component -/

namespace Run

variable {expected expected' : List (Expected τ)} {earlier earlier' : Bool}

theorem component_success (v : α) (consumed : Bool) (next : α → Bool → Run τ ω (Outcome β)) :
    component expected earlier (return .success v consumed) next =
      next v (earlier || consumed) := rfl

/-- A component that is a sequence is taken apart: what comes after the inner sequence comes after
    the last of its components. -/
theorem component_component {x : Run τ ω (Outcome α)} {next : α → Bool → Run τ ω (Outcome β)}
    {last : β → Bool → Run τ ω (Outcome γ)} {next' : α → Bool → Run τ ω (Outcome γ)}
    (hnext : ∀ v c, component expected earlier (next v c) last = next' v (earlier || c)) :
    component expected earlier (component expected' earlier' x next) last =
      component expected (earlier || earlier') x next' := by
  simp only [component, bind_assoc]
  refine bind_congr fun outcome => ?_
  cases outcome with
  | success v c =>
      show component expected earlier (next v (earlier' || c)) last = _
      rw [hnext, ← Bool.or_assoc]
  | failure c =>
      -- The report of the inner sequence is overwritten.
      show forward expected (earlier || (earlier' || c)) = _
      rw [← Bool.or_assoc]

/-- A component that starts a sequence is taken apart. -/
theorem component_component_false (x : Run τ ω (Outcome α))
    (next : α → Bool → Run τ ω (Outcome β)) (last : β → Bool → Run τ ω (Outcome γ)) :
    component expected false (component expected' earlier x next) last =
      component expected earlier x fun v c => component expected false (next v c) last :=
  component_component fun _ _ => rfl

/-- The value of a sequence can be changed behind its first component. -/
theorem map_component (f : β → γ) (x : Run τ ω (Outcome α))
    (next : α → Bool → Run τ ω (Outcome β)) :
    (return (← component expected earlier x next).map f) =
      component expected earlier x fun v c => return (← next v c).map f := by
  simp only [component, bind_assoc]
  refine bind_congr fun outcome => ?_
  cases outcome <;> rfl

theorem component_map (f : α → β) (x : Run τ ω (Outcome α))
    (next : β → Bool → Run τ ω (Outcome γ)) :
    component expected earlier (return (← x).map f) next =
      component expected earlier x fun v c => next (f v) c := by
  simp only [component, bind_assoc]
  refine bind_congr fun outcome => ?_
  cases outcome <;> rfl

theorem map_map (f : α → β) (g : β → γ) (x : Run τ ω (Outcome α)) :
    (return (← (return (← x).map f : Run τ ω (Outcome β))).map g : Run τ ω (Outcome γ)) =
      return (← x).map (fun v => g (f v)) := by
  simp only [bind_assoc, pure_bind]
  refine bind_congr fun outcome => ?_
  cases outcome <;> rfl

/-- A list of components within a sequence, where its failures are reported anew. -/
theorem component_all (earlier earlier' : Bool) (xs : List (Run τ ω (Outcome α))) :
    (component expected earlier (all expected' earlier' xs) fun vs c => return .success vs c) =
      all expected (earlier || earlier') xs := by
  induction xs generalizing earlier earlier' with
  | nil => rfl
  | cons x xs ih =>
      refine component_component fun v c => ?_
      rw [component_map, ← ih earlier c, map_component]
      rfl

/-- A list in two parts is the first part and then the second. -/
theorem all_append (xs ys : List (Run τ ω (Outcome α))) :
    all expected earlier (xs ++ ys) =
      component expected false (all expected earlier xs) fun as c =>
        return (← all expected c ys).map (as ++ ·) := by
  induction xs generalizing earlier with
  | nil =>
      show all expected earlier ys = do return (← all expected earlier ys).map ([] ++ ·)
      refine (bind_pure _).symm.trans (bind_congr fun outcome => ?_)
      cases outcome <;> rfl
  | cons x xs ih =>
      rw [List.cons_append, all, all, component_component_false]
      congr 1
      funext v c
      rw [ih, map_component, component_map]
      congr 1
      funext as c'
      rw [map_map]
      rfl

/-- A list is two lists in a row, when the failures of the two are reported anew. -/
theorem component_pair_all (first second both : List (Expected τ))
    (xs ys : List (Run τ ω (Outcome α))) :
    (component expected false (pair both (· ++ ·) (all first false xs) (all second false ys))
        fun vs c => return .success vs c) = all expected false (xs ++ ys) := by
  have hxs : (component expected false (all first false xs) fun as c => return .success as c) =
      all expected false xs := component_all false false xs
  have hys (c : Bool) :
      (component expected c (all second false ys) fun bs c => return .success bs c) =
        all expected c ys := by
    rw [component_all, Bool.or_false]
  rw [all_append, ← hxs, pair, component_component_false, component_component_false]
  congr 1
  funext as c
  rw [component_success, Bool.false_or, ← hys, map_component, component_component_false]
  rfl

/-- A component that reads one token reports its failure like one that expects the whole. -/
theorem component_satisfy (ruler : Ruler τ) (accepts : τ → Bool)
    (next : τ → Bool → Run τ ω (Outcome β)) :
    component expected earlier (satisfy ruler accepts expected') next = (do
      match (← getState).peek with
      | none => failAtEnd expected earlier
      | some t =>
          if accepts t then
            advance ruler
            next t true
          else failAtToken expected t earlier) := by
  rw [component, satisfy, bind_assoc]
  refine bind_congr fun s => ?_
  cases s.peek with
  | none =>
      show failAtEnd expected (earlier || false) = failAtEnd expected earlier
      rw [Bool.or_false]
  | some t =>
      by_cases haccepts : accepts t = true
      · simp only [haccepts, if_true, bind_assoc, pure_bind, Bool.or_true]
      · simp only [haccepts]
        show failAtToken expected t (earlier || false) = failAtToken expected t earlier
        rw [Bool.or_false]

/-- Tokens spelled out are components that read one token each. -/
theorem spelled_map {κ : Type} (ruler : Ruler τ) (test : κ → τ → Bool)
    (entry : κ → List (Expected τ)) (ks : List κ) :
    (spelled ruler expected earlier (ks.map test) : Run τ ω (Outcome (List τ))) =
      all expected earlier (ks.map fun k => satisfy ruler (test k) (entry k)) := by
  induction ks generalizing earlier with
  | nil => rfl
  | cons k ks ih =>
      rw [List.map_cons, List.map_cons, all, component_satisfy, ← ih]
      rfl

end Run

/-! ## Reporting anew -/

/-- Worlds that differ at most in what the last error expects. -/
structure World.SameButExpectations (w u : World τ ω) : Prop where
  place : w.state.place = u.state.place
  bookmarks : w.state.bookmarks = u.state.bookmarks
  cause : w.state.error.cause = u.state.error.cause
  message : w.state.error.message = u.state.error.message
  events : w.events = u.events
  cells : w.cells = u.cells

/-- A computation whose failures are reported with other expectations does the same otherwise. -/
theorem Run.run_component_success (expected : List (Expected τ)) (x : Run τ ω (Outcome α))
    (w : World τ ω) :
    ((component expected false x fun v c => return .success v c).run w).1 = (x.run w).1 ∧
      ((component expected false x fun v c => return .success v c).run w).2.SameButExpectations
        (x.run w).2 := by
  rcases hx : x.run w with ⟨reason | ⟨v, c⟩ | c, u⟩
  · rw [component, run_bind_of_error hx]
    exact ⟨rfl, rfl, rfl, rfl, rfl, rfl, rfl⟩
  · rw [component, run_bind_of_ok hx]
    exact ⟨rfl, rfl, rfl, rfl, rfl, rfl, rfl⟩
  · rw [component, run_bind_of_ok hx]
    exact ⟨rfl, rfl, rfl, rfl, rfl, rfl, rfl⟩

namespace Parser

/-! ## Parsers that agree -/

/-- Two parsers expect the same and run in the same way: from every world they give the same reply
    and leave the same world. -/
structure Agrees (p q : Parser τ ρ ω α) : Prop where
  expected : p.expected = q.expected
  eval (ruler : Ruler τ) (call : Calls τ ρ ω) (copy : Nat) :
    p.eval ruler call copy = q.eval ruler call copy

namespace Agrees

variable {p q r : Parser τ ρ ω α}

theorem refl (p : Parser τ ρ ω α) : p.Agrees p := ⟨rfl, fun _ _ _ => rfl⟩

theorem trans (h : p.Agrees q) (h' : q.Agrees r) : p.Agrees r :=
  ⟨h.expected.trans h'.expected,
    fun ruler call copy => (h.eval ruler call copy).trans (h'.eval ruler call copy)⟩

theorem map (h : p.Agrees q) (f : α → β) : (Parser.map f p).Agrees (Parser.map f q) := by
  have hexpected : (Parser.map f p).expected = (Parser.map f q).expected := by
    rw [expected_map, expected_map, h.expected]
  refine ⟨hexpected, fun ruler call copy => ?_⟩
  rw [eval_map, eval_map, hexpected, h.eval]

end Agrees

/-! ## Components one by one or as a list -/

theorem map2_agrees_sequence (p q : Parser τ ρ ω α) :
    (map2 (fun a b => [a, b]) p q).Agrees (sequence [p, q]) := by
  refine ⟨by rw [expected_map2, expected_sequence]; rfl, fun ruler call copy => ?_⟩
  rw [eval_map2, eval_sequence, expected_map2, expected_sequence]
  simp only [List.map_cons, List.map_nil, Run.all, Run.map_component, pure_bind]
  rfl

theorem map3_agrees_sequence (p q r : Parser τ ρ ω α) :
    (map3 (fun a b c => [a, b, c]) p q r).Agrees (sequence [p, q, r]) := by
  refine ⟨by rw [expected_map3, expected_sequence]; rfl, fun ruler call copy => ?_⟩
  rw [eval_map3, eval_sequence, expected_map3, expected_sequence]
  simp only [List.map_cons, List.map_nil, Run.all, Run.map_component, pure_bind]
  rfl

theorem map4_agrees_sequence (p q r s : Parser τ ρ ω α) :
    (map4 (fun a b c d => [a, b, c, d]) p q r s).Agrees (sequence [p, q, r, s]) := by
  refine ⟨by rw [expected_map4, expected_sequence]; rfl, fun ruler call copy => ?_⟩
  rw [eval_map4, eval_sequence, expected_map4, expected_sequence]
  simp only [List.map_cons, List.map_nil, Run.all, Run.map_component, pure_bind]
  rfl

/-! ## Changing the value in place or around -/

/-- Functions that are applied one after another. -/
inductive Functions : Type → Type → Type 1 where
  | nil {α : Type} : Functions α α
  | cons {α β γ : Type} (f : α → β) (rest : Functions β γ) : Functions α γ

/-- Changes the value of a parser in place, once for each function. -/
def inPlace : {α β : Type} → Parser τ ρ ω α → Functions α β → Parser τ ρ ω β
  | _, _, p, .nil => p
  | _, _, p, .cons f rest => inPlace (andThen f p) rest

/-- Changes the value of a parser by a node around it for each function. -/
def nested : {α β : Type} → Parser τ ρ ω α → Functions α β → Parser τ ρ ω β
  | _, _, p, .nil => p
  | _, _, p, .cons f rest => nested (map f p) rest

/-- If the expectations of a parser are welded already, then a node around it that changes its value
    reports failures as the parser does. -/
theorem agrees_map_of_welded {p : Parser τ ρ ω α} {q : Parser τ ρ ω β} {g : α → β}
    {lists : List (List (Expected τ))} (hp : p.expected = Expected.concat lists)
    (hq : q.expected = p.expected)
    (heval : ∀ ruler call copy, q.eval ruler call copy =
      Run.component p.expected false (p.eval ruler call copy) fun v c => return .success (g v) c) :
    q.Agrees (map g p) := by
  have hexpected : (map g p).expected = p.expected := by
    rw [expected_map, hp, Expected.concat_concat]
  refine ⟨hq.trans hexpected.symm, fun ruler call copy => ?_⟩
  rw [heval, eval_map, hexpected]

/-- A value changed in place is the value changed by a node around the parser. -/
theorem andThen_agrees_map (g : α → β) (p : Parser τ ρ ω α) :
    (andThen g p).Agrees (map g p) := by
  cases p with
  | map f p =>
      refine agrees_map_of_welded rfl rfl fun ruler call copy => ?_
      rw [eval_map, Run.component_component_false]
      rfl
  | map2 f p q =>
      refine agrees_map_of_welded rfl rfl fun ruler call copy => ?_
      simp only [eval_map2, Run.component_component_false]
      rfl
  | map3 f p q r =>
      refine agrees_map_of_welded rfl rfl fun ruler call copy => ?_
      simp only [eval_map3, Run.component_component_false]
      rfl
  | map4 f p q r s =>
      refine agrees_map_of_welded rfl rfl fun ruler call copy => ?_
      simp only [eval_map4, Run.component_component_false]
      rfl
  | _ => exact .refl _

theorem Agrees.nested {α β : Type} {p q : Parser τ ρ ω α} (fs : Functions α β)
    (h : p.Agrees q) : (p.nested fs).Agrees (q.nested fs) := by
  induction fs with
  | nil => exact h
  | cons f rest ih => exact ih (h.map f)

theorem inPlace_agrees_nested {α β : Type} (p : Parser τ ρ ω α) (fs : Functions α β) :
    (p.inPlace fs).Agrees (p.nested fs) := by
  induction fs with
  | nil => exact .refl p
  | cons f rest ih => exact (ih (andThen f p)).trans ((andThen_agrees_map f p).nested rest)

/-! ## Runs of tokens -/

theorem tokens_expected_eq_sequence [DecidableEq τ] {ts : List τ} (h : ts ≠ []) :
    (tokens ts : Parser τ ρ ω (List τ)).expected =
      (sequence (ts.map token) : Parser τ ρ ω (List τ)).expected := by
  rw [expected_sequence, List.map_map]
  exact (Expected.concat_tokens h).symm

theorem tokens_eval_eq_sequence [DecidableEq τ] (ruler : Ruler τ) (call : Calls τ ρ ω)
    (copy : Nat) (ts : List τ) :
    (tokens ts).eval ruler call copy = (sequence (ts.map token)).eval ruler call copy := by
  cases ts with
  | nil => rfl
  | cons t ts =>
      rw [eval_tokens, eval_sequence, ← tokens_expected_eq_sequence (List.cons_ne_nil t ts), List.map_map]
      exact Run.spelled_map ruler (fun t u => decide (u = t)) (fun t => [.tokens [t]]) (t :: ts)

/-! ## Lists in two parts -/

/-- A sequence of two parts does what the sequence of all parsers does, but for what it expects. -/
theorem sequence_append_eval (ruler : Ruler τ) (call : Calls τ ρ ω) (copy : Nat)
    (ps qs : List (Parser τ ρ ω α)) :
    (sequence (ps ++ qs)).eval ruler call copy =
      Run.component (sequence (ps ++ qs)).expected false
        ((map2 (· ++ ·) (sequence ps) (sequence qs)).eval ruler call copy)
        fun vs c => return .success vs c := by
  rw [eval_map2, eval_sequence, eval_sequence, eval_sequence, List.map_append]
  exact (Run.component_pair_all _ _ _ _ _).symm

/-- All ways to put parsers in order agree. Two, three or four parsers are read as their list is;
    values may be changed in place or by nodes around; a run of tokens is read as its tokens one by
    one; and a list may be read in two parts, which shows in the expectations of an error only. -/
theorem sequencing_agrees [DecidableEq τ] :
    ((∀ p q : Parser τ ρ ω α, (map2 (fun a b => [a, b]) p q).Agrees (sequence [p, q])) ∧
      (∀ p q r : Parser τ ρ ω α,
        (map3 (fun a b c => [a, b, c]) p q r).Agrees (sequence [p, q, r])) ∧
      ∀ p q r s : Parser τ ρ ω α,
        (map4 (fun a b c d => [a, b, c, d]) p q r s).Agrees (sequence [p, q, r, s])) ∧
    (∀ (p : Parser τ ρ ω α) (fs : Functions α β), (p.inPlace fs).Agrees (p.nested fs)) ∧
    (∀ ts : List τ,
      (∀ (ruler : Ruler τ) (call : Calls τ ρ ω) (copy : Nat),
        (tokens ts).eval ruler call copy = (sequence (ts.map token)).eval ruler call copy) ∧
      (ts ≠ [] → (tokens ts : Parser τ ρ ω (List τ)).expected =
        (sequence (ts.map token) : Parser τ ρ ω (List τ)).expected)) ∧
    ∀ (ps qs : List (Parser τ ρ ω α)) (ruler : Ruler τ) (call : Calls τ ρ ω) (copy : Nat)
      (w : World τ ω),
      let whole := ((sequence (ps ++ qs)).eval ruler call copy).run w
      let parts := ((map2 (· ++ ·) (sequence ps) (sequence qs)).eval ruler call copy).run w
      whole.1 = parts.1 ∧ whole.2.SameButExpectations parts.2 := by
  refine ⟨⟨map2_agrees_sequence, map3_agrees_sequence, map4_agrees_sequence⟩,
    inPlace_agrees_nested, fun ts => ⟨fun ruler call copy => ?_, tokens_expected_eq_sequence⟩,
    fun ps qs ruler call copy w => ?_⟩
  · exact tokens_eval_eq_sequence ruler call copy ts
  · rw [sequence_append_eval]
    exact Run.run_component_success _ _ w

/-- Two letters one by one fail at the second letter as their run does: after consuming, and with the
    whole run expected. -/
theorem sequencing_agrees_second_letter :
    let ts := ['a', 'b']
    let letters : Parser Char (fun _ => Empty) Unit (List Char) := sequence (ts.map token)
    let ruler := Ruler.ofString (TextLayout.next {})
    let w : World Char Unit := ⟨State.initial Position.first ['a', 'c'], [], .empty⟩
    ts ≠ [] ∧ letters.expected = [.tokens ts] ∧
    ∃ v, (letters.eval ruler (fun _ => Empty.elim) 0).run w = (.ok (.failure true), v) ∧
      v.state.cursor = 1 ∧ v.state.error.expected = [.tokens ts] := by
  intro ts letters ruler w
  have hts : ts ≠ [] := List.cons_ne_nil _ _
  obtain ⟨-, -, hrun, -⟩ := @sequencing_agrees Char Unit Char Char (fun _ => Empty) inferInstance
  obtain ⟨heval, hexpected⟩ := hrun ts
  refine ⟨hts, (hexpected hts).symm, ?_⟩
  rw [← heval]
  exact ⟨_, rfl, rfl, rfl⟩

end Parser

end CommittedChoice
