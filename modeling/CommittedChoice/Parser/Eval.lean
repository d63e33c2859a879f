import CommittedChoice.Parser.Derived
import CommittedChoice.Run.Combinators

set_option autoImplicit false

/-! # Running parsers

`Parser.eval` gives a parser its meaning as a computation on the world of a parse. It recurses on
the description; a reference to a rule asks `call`, the meaning of the rules, and the copy of the
grammar in which a parser stands is passed down so that its references can be told from those of
other copies.

The meaning of the rules is the limit of `calls rules n`, in which references may be nested `n`
deep. -/

namespace CommittedChoice

variable {τ ω : Type}

/-! ## The meaning of parsers -/

/-- The meaning of the rules: how a rule runs in a copy of the grammar. -/
abbrev Calls (τ : Type) (ρ : Type → Type) (ω : Type) : Type 1 :=
  (β : Type) → ρ β → Nat → Run τ ω (Outcome β)

namespace Parser

variable {ρ : Type → Type}

/-- How a parser runs, given how tokens are measured, the meaning of the rules, and the copy of the
    grammar in which the parser stands. The parts of a parser are looked at only when they are
    reached, so that a description in which one parser occurs in many places costs no more than the
    run that it asks for. -/
def eval {α : Type} (ruler : Ruler τ) (call : Calls τ ρ ω) (p : Parser τ ρ ω α) (copy : Nat) :
    Run τ ω (Outcome α) :=
  Run.delay fun _ => match p with
  | satisfy accepts expected => Run.satisfy ruler accepts expected
  | spelled tests expected => Run.spelled ruler expected false tests
  | endOfInput => Run.endOfInput [.endOfInput]
  | fail message => Run.fail [.noInput] none message false false
  | value v => return .success v false
  | position => return .success (← Run.getState).position false
  | recursive index sharing rule => Run.resolve ⟨copy, index⟩ sharing >>= call _ rule
  | shared q => q.eval ruler call 0
  | adapt f q => return (← q.eval ruler call copy).map f
  | map f q =>
      Run.component p.expected false (q.eval ruler call copy) fun v consumed =>
        return .success (f v) consumed
  | observe remark q =>
      Run.component p.expected false (q.eval ruler call copy) fun v consumed => do
        Run.emit (.remark (remark v))
        return .success v consumed
  | map2 f q r =>
      Run.component p.expected false (q.eval ruler call copy) fun a earlier =>
      Run.component p.expected earlier (r.eval ruler call copy) fun b consumed =>
        return .success (f a b) consumed
  | map3 f q r s =>
      Run.component p.expected false (q.eval ruler call copy) fun a earlier =>
      Run.component p.expected earlier (r.eval ruler call copy) fun b earlier =>
      Run.component p.expected earlier (s.eval ruler call copy) fun c consumed =>
        return .success (f a b c) consumed
  | map4 f q r s t =>
      Run.component p.expected false (q.eval ruler call copy) fun a earlier =>
      Run.component p.expected earlier (r.eval ruler call copy) fun b earlier =>
      Run.component p.expected earlier (s.eval ruler call copy) fun c earlier =>
      Run.component p.expected earlier (t.eval ruler call copy) fun d consumed =>
        return .success (f a b c d) consumed
  | all _ qs => Run.all p.expected false (List.ofFn fun i => (qs i).eval ruler call copy)
  | bind f q next =>
      Run.dependent f (q.eval ruler call copy) fun v => (next v).eval ruler call copy
  | choice _ qs => Run.choice p.expected (List.ofFn fun i => (qs i).eval ruler call copy)
  | negate message q => Run.negate p.expected message (q.eval ruler call copy)
  | check accepts message q =>
      Run.check p.expected accepts message (q.eval ruler call copy)
  | withExpected expected q =>
      Run.component expected false (q.eval ruler call copy) fun v consumed =>
        return .success v consumed
  | lookahead q => Run.lookahead (q.eval ruler call copy)
  | safe q => Run.safe (q.eval ruler call copy)
  | chain name seed combine q => Run.chain name seed combine (q.eval ruler call copy)
  | separated name q separator =>
      Run.separated name (Expected.concat [separator.expected, q.expected])
        (q.eval ruler call copy) (separator.eval ruler call copy)
  | optionallyTerminated name q separator =>
      Run.optionallyTerminated name (q.eval ruler call copy) (separator.eval ruler call copy)

/-! ## How each parser runs -/

section Equations

variable {α β γ δ ε : Type} (ruler : Ruler τ) (call : Calls τ ρ ω) (copy : Nat)

theorem eval_satisfy (accepts : τ → Bool) (expected : List (Expected τ)) :
    (satisfy accepts expected : Parser τ ρ ω τ).eval ruler call copy =
      Run.satisfy ruler accepts expected := rfl

theorem eval_spelled (tests : List (τ → Bool)) (expected : List (Expected τ)) :
    (spelled tests expected : Parser τ ρ ω (List τ)).eval ruler call copy =
      Run.spelled ruler expected false tests := rfl

theorem eval_endOfInput :
    (endOfInput : Parser τ ρ ω Unit).eval ruler call copy = Run.endOfInput [.endOfInput] := rfl

theorem eval_fail (message : String) :
    (fail message : Parser τ ρ ω α).eval ruler call copy =
      Run.fail [.noInput] none message false false := rfl

theorem eval_value (v : α) :
    (value v : Parser τ ρ ω α).eval ruler call copy = return .success v false := rfl

theorem eval_position :
    (position : Parser τ ρ ω Position).eval ruler call copy =
      (return .success (← Run.getState).position false) := rfl

theorem eval_recursive (index : Nat) (sharing : Sharing) (rule : ρ α) :
    (recursive index sharing rule : Parser τ ρ ω α).eval ruler call copy =
      Run.resolve ⟨copy, index⟩ sharing >>= call _ rule := rfl

theorem eval_shared (p : Parser τ ρ ω α) :
    (shared p).eval ruler call copy = p.eval ruler call 0 := rfl

theorem eval_adapt (f : α → β) (p : Parser τ ρ ω α) :
    (adapt f p).eval ruler call copy = (return (← p.eval ruler call copy).map f) := rfl

theorem eval_map (f : α → β) (p : Parser τ ρ ω α) :
    (map f p).eval ruler call copy =
      Run.component (map f p).expected false (p.eval ruler call copy) fun v consumed =>
        return .success (f v) consumed := rfl

theorem eval_observe (remark : α → Remark ω) (p : Parser τ ρ ω α) :
    (observe remark p).eval ruler call copy =
      Run.component (observe remark p).expected false (p.eval ruler call copy)
        fun v consumed => do
          Run.emit (.remark (remark v))
          return .success v consumed := rfl

theorem eval_map2 (f : α → β → γ) (p : Parser τ ρ ω α) (q : Parser τ ρ ω β) :
    (map2 f p q).eval ruler call copy =
      Run.component (map2 f p q).expected false (p.eval ruler call copy) fun a earlier =>
      Run.component (map2 f p q).expected earlier (q.eval ruler call copy) fun b consumed =>
        return .success (f a b) consumed := rfl

theorem eval_map3 (f : α → β → γ → δ) (p : Parser τ ρ ω α) (q : Parser τ ρ ω β)
    (r : Parser τ ρ ω γ) :
    (map3 f p q r).eval ruler call copy =
      Run.component (map3 f p q r).expected false (p.eval ruler call copy) fun a earlier =>
      Run.component (map3 f p q r).expected earlier (q.eval ruler call copy) fun b earlier =>
      Run.component (map3 f p q r).expected earlier (r.eval ruler call copy) fun c consumed =>
        return .success (f a b c) consumed := rfl

theorem eval_map4 (f : α → β → γ → δ → ε) (p : Parser τ ρ ω α) (q : Parser τ ρ ω β)
    (r : Parser τ ρ ω γ) (s : Parser τ ρ ω δ) :
    (map4 f p q r s).eval ruler call copy =
      Run.component (map4 f p q r s).expected false (p.eval ruler call copy) fun a earlier =>
      Run.component (map4 f p q r s).expected earlier (q.eval ruler call copy) fun b earlier =>
      Run.component (map4 f p q r s).expected earlier (r.eval ruler call copy) fun c earlier =>
      Run.component (map4 f p q r s).expected earlier (s.eval ruler call copy) fun d consumed =>
        return .success (f a b c d) consumed := rfl

theorem eval_all (n : Nat) (ps : Fin n → Parser τ ρ ω α) :
    (all n ps).eval ruler call copy =
      Run.all (all n ps).expected false (List.ofFn fun i => (ps i).eval ruler call copy) := rfl

theorem eval_bind (f : α → β → γ) (p : Parser τ ρ ω α) (next : α → Parser τ ρ ω β) :
    (bind f p next).eval ruler call copy =
      Run.dependent f (p.eval ruler call copy) fun v => (next v).eval ruler call copy := rfl

theorem eval_choice (n : Nat) (ps : Fin n → Parser τ ρ ω α) :
    (choice n ps).eval ruler call copy =
      Run.choice (choice n ps).expected (List.ofFn fun i => (ps i).eval ruler call copy) := rfl

theorem eval_negate (message : String) (p : Parser τ ρ ω α) :
    (negate message p).eval ruler call copy =
      Run.negate (negate message p).expected message (p.eval ruler call copy) := rfl

theorem eval_check (accepts : α → Bool) (message : α → String) (p : Parser τ ρ ω α) :
    (check accepts message p).eval ruler call copy =
      Run.check (check accepts message p).expected accepts message (p.eval ruler call copy) := rfl

theorem eval_withExpected (expected : List (Expected τ)) (p : Parser τ ρ ω α) :
    (withExpected expected p).eval ruler call copy =
      Run.component expected false (p.eval ruler call copy) fun v consumed =>
        return .success v consumed := rfl

theorem eval_lookahead (p : Parser τ ρ ω α) :
    (lookahead p).eval ruler call copy = Run.lookahead (p.eval ruler call copy) := rfl

theorem eval_safe (p : Parser τ ρ ω α) :
    (safe p).eval ruler call copy = Run.safe (p.eval ruler call copy) := rfl

theorem eval_chain (name : String) (seed : β) (combine : β → α → β) (p : Parser τ ρ ω α) :
    (chain name seed combine p).eval ruler call copy =
      Run.chain name seed combine (p.eval ruler call copy) := rfl

theorem eval_separated (name : String) (p : Parser τ ρ ω α) (separator : Parser τ ρ ω β) :
    (separated name p separator).eval ruler call copy =
      Run.separated name (Expected.concat [separator.expected, p.expected])
        (p.eval ruler call copy) (separator.eval ruler call copy) := rfl

theorem eval_optionallyTerminated (name : String) (p : Parser τ ρ ω α)
    (separator : Parser τ ρ ω β) :
    (optionallyTerminated name p separator).eval ruler call copy =
      Run.optionallyTerminated name (p.eval ruler call copy) (separator.eval ruler call copy) := rfl

end Equations

/-! ## Runs of tokens -/

/-- Where tokens are compared by equality, those that are read are those that are given. -/
theorem eq_of_run_spelled [DecidableEq τ] {ruler : Ruler τ} {expected : List (Expected τ)}
    {earlier c : Bool} {ts us : List τ} {w w' : World τ ω}
    (hrun : (Run.spelled ruler expected earlier (ts.map fun t u => decide (u = t))).run w =
      (.ok (.success us c), w')) : us = ts := by
  induction ts generalizing earlier us w with
  | nil =>
      cases hrun
      rfl
  | cons t ts ih =>
      rw [List.map_cons, Run.spelled, Run.run_bind_of_ok (Run.run_getState w)] at hrun
      rcases hpeek : w.state.peek with _ | u
      · simp only [hpeek] at hrun
        cases hrun
      · simp only [hpeek] at hrun
        split at hrun
        · next htest =>
            obtain ⟨-, w₁, -, hrest⟩ := Run.run_bind_eq_ok_iff.1 hrun
            obtain ⟨outcome, w₂, hlater, hcons⟩ := Run.run_bind_eq_ok_iff.1 hrest
            rcases outcome with ⟨vs, _⟩ | _
            · cases hcons
              rw [of_decide_eq_true htest, ih hlater]
            · cases hcons
        · cases hrun

/-- A run of tokens gives its own tokens, and these are what it has read. -/
theorem eval_tokens [DecidableEq τ] (ruler : Ruler τ) (call : Calls τ ρ ω) (copy : Nat)
    (ts : List τ) :
    (tokens ts : Parser τ ρ ω (List τ)).eval ruler call copy =
      Run.spelled ruler [.tokens ts] false (ts.map fun t u => decide (u = t)) := by
  rw [tokens, eval_adapt, eval_spelled]
  ext w : 2
  rcases hrun : (Run.spelled ruler [.tokens ts] false (ts.map fun t u => decide (u = t)) :
    Run τ ω (Outcome (List τ))).run w with ⟨_ | ⟨us, c⟩ | c, w'⟩
  · rw [Run.run_bind_of_error hrun]
  · rw [Run.run_bind_of_ok hrun, eq_of_run_spelled hrun]
    rfl
  · rw [Run.run_bind_of_ok hrun]
    rfl

/-! ## Lists of parsers -/

theorem eval_sequence {α : Type} (ruler : Ruler τ) (call : Calls τ ρ ω)
    (ps : List (Parser τ ρ ω α)) (copy : Nat) :
    (sequence ps).eval ruler call copy =
      Run.all (sequence ps).expected false (ps.map fun p => p.eval ruler call copy) := by
  rw [← ofFn_getElem_toArray ps fun p => p.eval ruler call copy]
  rfl

theorem eval_oneOf {α : Type} (ruler : Ruler τ) (call : Calls τ ρ ω)
    (ps : List (Parser τ ρ ω α)) (copy : Nat) :
    (oneOf ps).eval ruler call copy =
      Run.choice (oneOf ps).expected (ps.map fun p => p.eval ruler call copy) := by
  rw [← ofFn_getElem_toArray ps fun p => p.eval ruler call copy]
  rfl

theorem eval_orElse {α : Type} (ruler : Ruler τ) (call : Calls τ ρ ω) (p q : Parser τ ρ ω α)
    (copy : Nat) :
    (orElse p q).eval ruler call copy =
      Run.choice (orElse p q).expected [p.eval ruler call copy, q.eval ruler call copy] :=
  eval_oneOf ruler call [p, q] copy

/-! ## Rules -/

/-- The rules of a recursive grammar. -/
abbrev Rules (τ : Type) (ρ : Type → Type) (ω : Type) : Type 1 :=
  (β : Type) → ρ β → Parser τ ρ ω β

/-- The meaning of the rules with references nested at most `n` deep. -/
def calls (ruler : Ruler τ) (rules : Rules τ ρ ω) : Nat → Calls τ ρ ω
  | 0 => fun _ _ _ => Run.stop .unfinished
  | n + 1 => fun β rule copy => (rules β rule).eval ruler (calls ruler rules n) copy

/-- A parser run with references to rules nested at most `depth` deep. -/
def parse {α : Type} (ruler : Ruler τ) (rules : Rules τ ρ ω) (depth : Nat) (p : Parser τ ρ ω α) :
    Run τ ω (Outcome α) :=
  p.eval ruler (calls ruler rules depth) 0

end Parser

end CommittedChoice
