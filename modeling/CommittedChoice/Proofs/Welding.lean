import CommittedChoice.Proofs.Sequencing

set_option autoImplicit false

/-! # What welding does

`Expected.concat` welds the expectations of consecutive components. To say what it does, entries are
unpacked: a run becomes its tokens one by one, and any other entry stays as it is. Welding changes
nothing of what comes out then (`Expected.unpack_concat`), so the parts that come out can be told
apart by counting them, and a place between two parts means the same before and behind welding.

What welding changes is which of these places lie inside a run. `Expected.inside_weld` says it for
the components still to be welded, by induction on them: the pending run counts as a component in
front of them. The main statement is `Expected.concat_welds_lone_neighbours`. -/

namespace CommittedChoice

namespace Expected

variable {τ : Type}

/-! ## Entries in parts -/

/-- The tokens of a run one by one; any other entry is its only part. -/
def parts : Expected τ → List (Expected τ)
  | tokens ts => ts.map fun t => tokens [t]
  | entry => [entry]

/-- The parts of all entries. -/
def unpack (entries : List (Expected τ)) : List (Expected τ) := entries.flatMap parts

/-- The place behind the first `n` parts lies inside an entry: the parts on both sides of it are
    tokens of one run. -/
def Inside (entries : List (Expected τ)) (n : Nat) : Prop :=
  ∃ before ts us after, entries = before ++ tokens (ts ++ us) :: after ∧ ts ≠ [] ∧ us ≠ [] ∧
    n = (unpack before).length + ts.length

/-- The place behind the first `n` parts is where two neighbouring components meet that are a single
    run each. -/
def Meeting (lists : List (List (Expected τ))) (n : Nat) : Prop :=
  ∃ front ts us back, lists = front ++ [tokens ts] :: [tokens us] :: back ∧ ts ≠ [] ∧ us ≠ [] ∧
    n = (unpack front.flatten).length + ts.length

variable {entry : Expected τ} {entries entries' : List (Expected τ)}
  {lists : List (List (Expected τ))} {run ts : List τ} {n : Nat}

@[simp] theorem unpack_nil : unpack ([] : List (Expected τ)) = [] := rfl

@[simp] theorem unpack_cons (entry : Expected τ) (entries : List (Expected τ)) :
    unpack (entry :: entries) = parts entry ++ unpack entries := List.flatMap_cons

@[simp] theorem unpack_append (entries entries' : List (Expected τ)) :
    unpack (entries ++ entries') = unpack entries ++ unpack entries' := List.flatMap_append

theorem length_unpack_tokens (ts : List τ) : (unpack [tokens ts]).length = ts.length := by
  simp [parts]

theorem length_unpack_flatten_cons (entries : List (Expected τ))
    (lists : List (List (Expected τ))) :
    (unpack (entries :: lists).flatten).length =
      (unpack entries).length + (unpack lists.flatten).length := by
  rw [List.flatten_cons, unpack_append, List.length_append]

theorem eq_empty_of_not_isProper (h : ¬ entry.isProper = true) : entry = tokens [] := by
  match entry with
  | tokens [] => rfl
  | tokens (_ :: _) | labelled _ _ | endOfInput | noInput => exact absurd rfl h

theorem unpack_closeRun (run : List τ) : unpack (closeRun run) = parts (tokens run) := by
  cases run with
  | nil => rfl
  | cons t run => exact List.append_nil _

/-! ## Places inside a run -/

theorem inside_append :
    Inside (entries ++ entries') n ↔ Inside entries n ∨
      (unpack entries).length ≤ n ∧ Inside entries' (n - (unpack entries).length) := by
  constructor
  · rintro ⟨before, ts, us, after, heq, hts, hus, rfl⟩
    rcases List.append_eq_append_iff.1 heq with ⟨middle, rfl, rfl⟩ | ⟨middle, rfl, hmiddle⟩
    · rw [unpack_append, List.length_append]
      exact .inr ⟨by omega, middle, ts, us, after, rfl, hts, hus, by omega⟩
    · rcases List.cons_eq_append_iff.1 hmiddle with ⟨rfl, rfl⟩ | ⟨middle', rfl, rfl⟩
      · rw [List.append_nil]
        exact .inr ⟨by omega, [], ts, us, after, rfl, hts, hus, by simp⟩
      · exact .inl ⟨before, ts, us, middle', rfl, hts, hus, rfl⟩
  · rintro (⟨before, ts, us, after, rfl, hts, hus, rfl⟩ |
      ⟨hle, before, ts, us, after, rfl, hts, hus, hn⟩)
    · exact ⟨before, ts, us, after ++ entries', by simp, hts, hus, rfl⟩
    · refine ⟨entries ++ before, ts, us, after, by simp, hts, hus, ?_⟩
      rw [unpack_append, List.length_append]
      omega

/-- A place inside a single entry is inside a run. -/
theorem inside_singleton : Inside [entry] n ↔ ∃ ts, entry = tokens ts ∧ 0 < n ∧ n < ts.length := by
  constructor
  · rintro ⟨before, us, vs, after, heq, hus, hvs, rfl⟩
    cases before with
    | nil =>
        rw [List.nil_append, List.cons.injEq] at heq
        have hus := List.length_pos_iff.2 hus
        have hvs := List.length_pos_iff.2 hvs
        refine ⟨us ++ vs, heq.1, ?_⟩
        simp only [unpack_nil, List.length_nil, List.length_append]
        omega
    | cons => simp at heq
  · rintro ⟨ts, rfl, hpos, hlt⟩
    have htake : (ts.take n).length = n := List.length_take_of_le (Nat.le_of_lt hlt)
    have hdrop : (ts.drop n).length = ts.length - n := List.length_drop
    exact ⟨[], ts.take n, ts.drop n, [], by simp, List.length_pos_iff.1 (by omega),
      List.length_pos_iff.1 (by omega), by simp [htake]⟩

theorem inside_tokens_cons :
    Inside (tokens ts :: entries) n ↔ 0 < n ∧ n < ts.length ∨
      ts.length ≤ n ∧ Inside entries (n - ts.length) := by
  rw [← List.singleton_append, inside_append, inside_singleton, length_unpack_tokens]
  simp

theorem inside_empty_cons : Inside (tokens [] :: entries) n ↔ Inside entries n := by
  simp [inside_tokens_cons]

theorem inside_closeRun :
    Inside (closeRun run ++ entries) n ↔ Inside (tokens run :: entries) n := by
  cases run with
  | nil => exact inside_empty_cons.symm
  | cons t run => rfl

/-- Empty runs have no place inside. -/
theorem inside_filter_isProper : Inside (entries.filter isProper) n ↔ Inside entries n := by
  induction entries generalizing n with
  | nil => rfl
  | cons entry entries ih =>
      by_cases hentry : entry.isProper = true
      · rw [List.filter_cons_of_pos hentry, ← List.singleton_append, inside_append, ih,
          ← inside_append, List.singleton_append]
      · obtain rfl := eq_empty_of_not_isProper hentry
        rw [List.filter_cons_of_neg hentry, ih, inside_empty_cons]

/-! ## Places where components meet -/

/-- The first component is a single run. -/
def StartsLone (lists : List (List (Expected τ))) : Prop :=
  ∃ us back, lists = [tokens us] :: back ∧ us ≠ []

theorem meeting_cons :
    Meeting (entries :: lists) n ↔
      (∃ ts, entries = [tokens ts] ∧ ts ≠ [] ∧ StartsLone lists ∧ n = ts.length) ∨
      (unpack entries).length ≤ n ∧ Meeting lists (n - (unpack entries).length) := by
  constructor
  · rintro ⟨front, ts, us, back, heq, hts, hus, rfl⟩
    cases front with
    | nil =>
        obtain ⟨rfl, rfl⟩ := List.cons.inj heq
        exact .inl ⟨ts, rfl, hts, ⟨us, back, rfl, hus⟩, by simp⟩
    | cons component front =>
        obtain ⟨rfl, rfl⟩ := List.cons.inj heq
        rw [length_unpack_flatten_cons]
        exact .inr ⟨by omega, front, ts, us, back, rfl, hts, hus, by omega⟩
  · rintro (⟨ts, rfl, hts, ⟨us, back, rfl, hus⟩, rfl⟩ |
      ⟨hle, front, ts, us, back, rfl, hts, hus, hn⟩)
    · exact ⟨[], ts, us, back, rfl, hts, hus, by simp⟩
    · refine ⟨entries :: front, ts, us, back, rfl, hts, hus, ?_⟩
      rw [length_unpack_flatten_cons]
      omega

theorem meeting_tokens_cons :
    Meeting ([tokens ts] :: lists) n ↔ (ts ≠ [] ∧ StartsLone lists ∧ n = ts.length) ∨
      ts.length ≤ n ∧ Meeting lists (n - ts.length) := by
  rw [meeting_cons, length_unpack_tokens]
  simp

theorem meeting_cons_of_not_lone (h : ∀ ts, entries ≠ [tokens ts]) :
    Meeting (entries :: lists) n ↔
      (unpack entries).length ≤ n ∧ Meeting lists (n - (unpack entries).length) := by
  rw [meeting_cons, or_iff_right]
  rintro ⟨ts, hlone, -⟩
  exact h ts hlone

theorem meeting_empty_cons : Meeting ([tokens []] :: lists) n ↔ Meeting lists n := by
  simp [meeting_tokens_cons]

theorem not_meeting_singleton : ¬ Meeting [entries] n := by
  rintro ⟨front, us, vs, back, heq, -⟩
  cases front <;> simp at heq

/-! ## Welding -/

theorem unpack_weld (run : List τ) (lists : List (List (Expected τ))) :
    unpack (weld run lists) = unpack (tokens run :: lists.flatten) := by
  fun_induction weld run lists with
  | case1 run => simp [unpack_closeRun]
  | case2 run ts rest ih => simp [ih, parts]
  | case3 run entries rest _ ih => simp [ih, unpack_closeRun, parts]

/-- The places inside a run are those inside the pending run or an entry, and those where runs meet
    that are components. -/
theorem inside_weld (hproper : ∀ entries ∈ lists, ∀ entry ∈ entries, entry.isProper = true) :
    Inside (weld run lists) n ↔
      Inside (tokens run :: lists.flatten) n ∨ Meeting ([tokens run] :: lists) n := by
  fun_induction weld run lists generalizing n with
  | case1 run =>
      rw [← List.append_nil (closeRun run), inside_closeRun, List.flatten_nil]
      exact (or_iff_left not_meeting_singleton).symm
  | case2 run ts rest ih =>
      have hts : ts ≠ [] := by
        rintro rfl
        exact absurd (hproper _ (.head _) _ (.head _)) (by simp [isProper])
      have hlone : StartsLone ([tokens ts] :: rest) := ⟨ts, rest, rfl, hts⟩
      have hpos : 0 < ts.length := List.length_pos_iff.2 hts
      -- the end of the pending run comes to lie inside, and it is where this component meets it
      rw [ih fun entries h => hproper entries (.tail _ h)]
      simp only [List.flatten_cons, List.singleton_append, inside_tokens_cons, meeting_tokens_cons,
        List.length_append, Nat.sub_sub, ← List.length_pos_iff]
      grind
  | case3 run entries rest hlone ih =>
      have hbehind : ∀ m, Inside (weld [] rest) m ↔ Inside rest.flatten m ∨ Meeting rest m := by
        intro m
        rw [ih fun entries h => hproper entries (.tail _ h), inside_empty_cons, meeting_empty_cons]
      have hnot : ¬ StartsLone (entries :: rest) := by
        rintro ⟨us, back, heq, -⟩
        exact hlone us (List.cons.inj heq).1
      -- nothing meets at the ends of a component that is no single run
      rw [List.append_assoc, inside_closeRun, List.flatten_cons, inside_tokens_cons, inside_append,
        hbehind, inside_tokens_cons, inside_append, meeting_tokens_cons,
        meeting_cons_of_not_lone hlone]
      grind

/-! ## The components that say something -/

theorem flatten_proper (lists : List (List (Expected τ))) :
    (proper lists).flatten = (union lists).filter isProper := by
  rw [proper, List.flatten_filter_not_isEmpty, union, List.filter_flatten]

theorem unpack_filter_isProper (entries : List (Expected τ)) :
    unpack (entries.filter isProper) = unpack entries := by
  induction entries with
  | nil => rfl
  | cons entry entries ih =>
      by_cases hentry : entry.isProper = true
      · rw [List.filter_cons_of_pos hentry, unpack_cons, unpack_cons, ih]
      · obtain rfl := eq_empty_of_not_isProper hentry
        rw [List.filter_cons_of_neg hentry, ih]
        rfl

theorem unpack_concat (lists : List (List (Expected τ))) :
    unpack (concat lists) = unpack (union lists) := by
  rw [concat, unpack_weld, flatten_proper, unpack_cons, unpack_filter_isProper]
  rfl

theorem inside_concat :
    Inside (concat lists) n ↔ Inside (union lists) n ∨ Meeting (proper lists) n := by
  rw [concat, inside_weld fun _ hentries _ => isProper_of_mem_proper hentries, flatten_proper,
    inside_empty_cons, meeting_empty_cons, inside_filter_isProper]

/-- **Welding joins runs that are neighbours and nothing else.** No empty run is left. Welded
    entries have the same parts as the entries of the components one after another, so that nothing
    is lost, doubled or moved. Two neighbouring parts are tokens of one welded run exactly if they
    were tokens of one run before, or if two components meet between them, each of which is a single
    run, and which are neighbours once empty runs are dropped and with them the components that have
    nothing else. And welding again changes nothing. -/
theorem concat_welds_lone_neighbours (lists : List (List (Expected τ))) :
    tokens [] ∉ concat lists ∧
    unpack (concat lists) = unpack (union lists) ∧
    (∀ n, Inside (concat lists) n ↔ Inside (union lists) n ∨ Meeting (proper lists) n) ∧
    concat [concat lists] = concat lists := by
  refine ⟨fun hempty => ?_, unpack_concat lists, fun n => inside_concat, concat_concat lists⟩
  exact absurd (isProper_of_mem_concat hempty) (by simp [isProper])

example : concat [[tokens ['n']], [tokens ['u', 'l']], [tokens [], tokens ['l']],
    [endOfInput, tokens ['x']], [tokens ['y']]] =
      [tokens ['n', 'u', 'l', 'l'], endOfInput, tokens ['x'], tokens ['y']] := rfl

end Expected

end CommittedChoice
