import CommittedChoice.Event
import CommittedChoice.Expected

set_option autoImplicit false

/-! # Parsers

A `Parser τ ρ ω α` is a description of how to read an `α` from tokens of type `τ`. It is plain data:
what it expects (`Parser.expected`) is computed from the description alone, and how it runs is
defined in `CommittedChoice.Parser.Eval`. The expectations are worked out once, when a description is
made, and kept with it: a parser that occurs in many places is looked at once.

`ρ` names the rules of a recursive grammar: `ρ α` holds the names of the rules that read an `α`. `ω`
is the type of notes that taps leave. Repetitions carry the name by which a fault refers to the
repeated parser.

A description is finitely built, also where a parser depends on a value (`Parser.bind`): the parsers
that a binder gives are there before the one that has the binder. A binder that builds its own
parser again, step by step and without end, has no description. A grammar that calls itself does so
by a reference to a rule (`Parser.recursive`). -/

namespace CommittedChoice

section Description

variable (τ : Type) (ρ : Type → Type) (ω : Type)

/-- A parser of `α`. -/
inductive Parser : Type → Type 1 where
  /-- One token that is accepted. -/
  | satisfy (accepts : τ → Bool) (expected : List (Expected τ)) : Parser τ
  /-- One token for each test, in order. -/
  | spelled (tests : List (τ → Bool)) (expected : List (Expected τ)) : Parser (List τ)
  /-- The end of the input. -/
  | endOfInput : Parser Unit
  /-- Fails. -/
  | fail {α : Type} (message : String) : Parser α
  /-- Reads nothing and gives a value. -/
  | value {α : Type} (v : α) : Parser α
  /-- Reads nothing and gives the current position. -/
  | position : Parser Position
  /-- A reference to a rule, resolved when it is first run. The index tells the references of one
      copy of a grammar apart. -/
  | recursive {α : Type} (index : Nat) (sharing : Sharing) (rule : ρ α) : Parser α
  /-- A parser of the shared copy of the grammar, used in place. -/
  | shared {α : Type} (p : Parser α) : Parser α
  /-- The same parser with its value seen as another. It is no step of the grammar: failures and
      expectations stay as they are. -/
  | adapt {α β : Type} (f : α → β) (p : Parser α) : Parser β
  /-- One parser, its value changed. -/
  | map {α β : Type} (f : α → β) (p : Parser α) : Parser β
  /-- One parser that reports its value. -/
  | observe {α : Type} (remark : α → Remark ω) (p : Parser α) : Parser α
  /-- Two parsers in order. -/
  | map2 {α β γ : Type} (f : α → β → γ) (p : Parser α) (q : Parser β) : Parser γ
  /-- Three parsers in order. -/
  | map3 {α β γ δ : Type} (f : α → β → γ → δ) (p : Parser α) (q : Parser β)
      (r : Parser γ) : Parser δ
  /-- Four parsers in order. -/
  | map4 {α β γ δ ε : Type} (f : α → β → γ → δ → ε) (p : Parser α) (q : Parser β)
      (r : Parser γ) (s : Parser δ) : Parser ε
  /-- Any number of parsers in order. -/
  | all {α : Type} (n : Nat) (ps : Fin n → Parser α) : Parser (List α)
  /-- A parser and then one that depends on its value. Whatever the value, what `next` gives is a
      smaller description, and never one that has this parser as a part. -/
  | bind {α β γ : Type} (f : α → β → γ) (p : Parser α) (next : α → Parser β) :
      Parser γ
  /-- The first alternative that succeeds or consumes. -/
  | choice {α : Type} (n : Nat) (ps : Fin n → Parser α) : Parser α
  /-- Succeeds where the parser fails. -/
  | negate {α : Type} (message : String) (p : Parser α) : Parser Unit
  /-- A parser whose value has to be accepted. -/
  | check {α : Type} (accepts : α → Bool) (message : α → String) (p : Parser α) :
      Parser α
  /-- A parser with other expectations. -/
  | withExpected {α : Type} (expected : List (Expected τ)) (p : Parser α) : Parser α
  /-- A parser that does not move when it succeeds. -/
  | lookahead {α : Type} (p : Parser α) : Parser α
  /-- A parser that does not move when it fails. -/
  | safe {α : Type} (p : Parser α) : Parser α
  /-- A parser repeated at least once, its values folded from the left. -/
  | chain {α β : Type} (name : String) (seed : β) (combine : β → α → β) (p : Parser α) :
      Parser β
  /-- At least one value, with a separator between two values. -/
  | separated {α β : Type} (name : String) (p : Parser α) (separator : Parser β) :
      Parser (List α)
  /-- At least one value, with a separator between two values and perhaps behind the last. -/
  | optionallyTerminated {α β : Type} (name : String) (p : Parser α)
      (separator : Parser β) : Parser (List α)
with
  /-- What a parser expects, read off its description. -/
  @[computed_field] expectations : (α : Type) → Parser τ ρ ω α → List (Expected τ)
    | _, .satisfy _ expected => expected
    | _, .spelled _ expected => expected
    | _, .endOfInput => [.endOfInput]
    | _, .fail _ => [.noInput]
    | _, .value _ => [.noInput]
    | _, .position => [.noInput]
    | _, .recursive _ _ _ => [.labelled "Recursive" []]
    | _, .shared p => p.expectations
    | _, .adapt _ p => p.expectations
    | _, .map _ p => Expected.concat [p.expectations]
    | _, .observe _ p => Expected.concat [p.expectations]
    | _, .map2 _ p q => Expected.concat [p.expectations, q.expectations]
    | _, .map3 _ p q r => Expected.concat [p.expectations, q.expectations, r.expectations]
    | _, .map4 _ p q r s =>
        Expected.concat [p.expectations, q.expectations, r.expectations, s.expectations]
    | _, .all _ ps => Expected.concat (List.ofFn fun i => (ps i).expectations)
    | _, .bind _ p _ => p.expectations
    | _, .choice _ ps => Expected.union (List.ofFn fun i => (ps i).expectations)
    | _, .negate _ p => [.labelled "Not..." p.expectations]
    | _, .check _ _ p => [.labelled "Result satisfying assertion" p.expectations]
    | _, .withExpected expected _ => expected
    | _, .lookahead p => p.expectations
    | _, .safe p => p.expectations
    | _, .chain _ _ _ p => p.expectations
    | _, .separated _ p _ => p.expectations
    | _, .optionallyTerminated _ p _ => p.expectations

end Description

namespace Parser

variable {τ α β γ δ ε : Type} {ρ : Type → Type} {ω : Type}

/-- What a parser expects. -/
def expected (p : Parser τ ρ ω α) : List (Expected τ) := expectations τ ρ ω α p

/-! ## What each parser expects -/

@[simp] theorem expected_satisfy (accepts : τ → Bool) (expected : List (Expected τ)) :
    (satisfy accepts expected : Parser τ ρ ω τ).expected = expected := rfl

@[simp] theorem expected_spelled (tests : List (τ → Bool)) (expected : List (Expected τ)) :
    (spelled tests expected : Parser τ ρ ω (List τ)).expected = expected := rfl

@[simp] theorem expected_endOfInput :
    (endOfInput : Parser τ ρ ω Unit).expected = [.endOfInput] := rfl

@[simp] theorem expected_fail (message : String) :
    (fail message : Parser τ ρ ω α).expected = [.noInput] := rfl

@[simp] theorem expected_value (v : α) : (value v : Parser τ ρ ω α).expected = [.noInput] := rfl

@[simp] theorem expected_position : (position : Parser τ ρ ω Position).expected = [.noInput] := rfl

@[simp] theorem expected_recursive (index : Nat) (sharing : Sharing) (rule : ρ α) :
    (recursive index sharing rule : Parser τ ρ ω α).expected = [.labelled "Recursive" []] := rfl

@[simp] theorem expected_shared (p : Parser τ ρ ω α) : (shared p).expected = p.expected := rfl

@[simp] theorem expected_adapt (f : α → β) (p : Parser τ ρ ω α) :
    (adapt f p).expected = p.expected := rfl

@[simp] theorem expected_map (f : α → β) (p : Parser τ ρ ω α) :
    (map f p).expected = Expected.concat [p.expected] := rfl

@[simp] theorem expected_observe (remark : α → Remark ω) (p : Parser τ ρ ω α) :
    (observe remark p).expected = Expected.concat [p.expected] := rfl

@[simp] theorem expected_map2 (f : α → β → γ) (p : Parser τ ρ ω α) (q : Parser τ ρ ω β) :
    (map2 f p q).expected = Expected.concat [p.expected, q.expected] := rfl

@[simp] theorem expected_map3 (f : α → β → γ → δ) (p : Parser τ ρ ω α) (q : Parser τ ρ ω β)
    (r : Parser τ ρ ω γ) :
    (map3 f p q r).expected = Expected.concat [p.expected, q.expected, r.expected] := rfl

@[simp] theorem expected_map4 (f : α → β → γ → δ → ε) (p : Parser τ ρ ω α) (q : Parser τ ρ ω β)
    (r : Parser τ ρ ω γ) (s : Parser τ ρ ω δ) :
    (map4 f p q r s).expected =
      Expected.concat [p.expected, q.expected, r.expected, s.expected] := rfl

@[simp] theorem expected_all (n : Nat) (ps : Fin n → Parser τ ρ ω α) :
    (all n ps).expected = Expected.concat (List.ofFn fun i => (ps i).expected) := rfl

@[simp] theorem expected_bind (f : α → β → γ) (p : Parser τ ρ ω α) (next : α → Parser τ ρ ω β) :
    (bind f p next).expected = p.expected := rfl

@[simp] theorem expected_choice (n : Nat) (ps : Fin n → Parser τ ρ ω α) :
    (choice n ps).expected = Expected.union (List.ofFn fun i => (ps i).expected) := rfl

@[simp] theorem expected_negate (message : String) (p : Parser τ ρ ω α) :
    (negate message p).expected = [.labelled "Not..." p.expected] := rfl

@[simp] theorem expected_check (accepts : α → Bool) (message : α → String) (p : Parser τ ρ ω α) :
    (check accepts message p).expected = [.labelled "Result satisfying assertion" p.expected] := rfl

@[simp] theorem expected_withExpected (expected : List (Expected τ)) (p : Parser τ ρ ω α) :
    (withExpected expected p).expected = expected := rfl

@[simp] theorem expected_lookahead (p : Parser τ ρ ω α) : (lookahead p).expected = p.expected := rfl

@[simp] theorem expected_safe (p : Parser τ ρ ω α) : (safe p).expected = p.expected := rfl

@[simp] theorem expected_chain (name : String) (seed : β) (combine : β → α → β)
    (p : Parser τ ρ ω α) :
    (chain name seed combine p).expected = p.expected := rfl

@[simp] theorem expected_separated (name : String) (p : Parser τ ρ ω α)
    (separator : Parser τ ρ ω β) :
    (separated name p separator).expected = p.expected := rfl

@[simp] theorem expected_optionallyTerminated (name : String) (p : Parser τ ρ ω α)
    (separator : Parser τ ρ ω β) :
    (optionallyTerminated name p separator).expected = p.expected := rfl

end Parser

end CommittedChoice
