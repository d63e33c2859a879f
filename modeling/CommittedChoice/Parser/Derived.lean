import CommittedChoice.Parser.Basic

set_option autoImplicit false

/-! # Derived parsers

The everyday vocabulary, each word an abbreviation of a description. Repetitions take the name by
which a fault calls their body. -/

namespace CommittedChoice

namespace Parser

variable {τ ω α β γ : Type} {ρ : Type → Type}

/-! ## Leaves -/

/-- One given token. Tokens are compared by equality: the one that is read is the one that is
    given. -/
def token [DecidableEq τ] (t : τ) : Parser τ ρ ω τ := satisfy (fun u => u = t) [.tokens [t]]

/-- A given run of tokens, which is also the value. A mismatch after the first token has consumed.
    Tokens are compared by equality, so that the value is what was read as well (`eval_tokens`). -/
def tokens [DecidableEq τ] (ts : List τ) : Parser τ ρ ω (List τ) :=
  adapt (fun _ => ts) (spelled (ts.map fun t u => decide (u = t)) [.tokens ts])

/-- One token of a class that is described by a label. -/
def candidateLabelled (accepts : τ → Bool) (label : String) : Parser τ ρ ω τ :=
  satisfy accepts [.labelled label []]

/-- One token of a class. -/
def candidate (accepts : τ → Bool) : Parser τ ρ ω τ := candidateLabelled accepts "candidate"

/-- One token, whatever it is. -/
def anyToken : Parser τ ρ ω τ := candidateLabelled (fun _ => true) "any token"

/-- Reads nothing. -/
def unit : Parser τ ρ ω Unit := value ()

/-- Reads nothing and gives the empty list. -/
def empty : Parser τ ρ ω (List α) := map (fun _ => []) unit

/-! ## Sequences -/

/-- Parsers in order. They are kept in an array, where each is found at once. -/
def sequence (ps : List (Parser τ ρ ω α)) : Parser τ ρ ω (List α) :=
  let table := ps.toArray
  all table.size fun i => table[i]

/-- A function of the members of a list, listed by index. -/
theorem ofFn_getElem_toArray {κ : Type 1} {β : Type} (ks : List κ) (f : κ → β) :
    (List.ofFn fun i : Fin ks.toArray.size => f ks.toArray[i]) = ks.map f := by
  apply List.ext_getElem
  · simp
  · intro i _ _
    simp

@[simp] theorem expected_sequence (ps : List (Parser τ ρ ω α)) :
    (sequence ps).expected = Expected.concat (ps.map expected) := by
  rw [sequence, expected_all, ofFn_getElem_toArray]

/-- Two parsers of which the second value is kept. -/
def keepSecond (p : Parser τ ρ ω α) (q : Parser τ ρ ω β) : Parser τ ρ ω β :=
  map2 (fun _ b => b) p q

/-- Two parsers of which the first value is kept. -/
def before (p : Parser τ ρ ω α) (q : Parser τ ρ ω β) : Parser τ ρ ω α :=
  map2 (fun a _ => a) p q

/-- A parser between two others. -/
def between (left : Parser τ ρ ω β) (p : Parser τ ρ ω α) (right : Parser τ ρ ω γ) :
    Parser τ ρ ω α :=
  map3 (fun _ a _ => a) left p right

/-- A parser between two occurrences of a delimiter. -/
def betweenSame (delimiter : Parser τ ρ ω β) (p : Parser τ ρ ω α) : Parser τ ρ ω α :=
  between delimiter p delimiter

/-- A value with the position at which it starts. -/
def withPosition (p : Parser τ ρ ω α) : Parser τ ρ ω (Position × α) := map2 Prod.mk position p

/-- Changes the value of a sequence in place: a parser that already computes its value from
    components computes the new value instead, and any other parser is mapped. -/
def andThen {α β : Type} (g : α → β) : Parser τ ρ ω α → Parser τ ρ ω β
  | map f p => map (fun a => g (f a)) p
  | map2 f p q => map2 (fun a b => g (f a b)) p q
  | map3 f p q r => map3 (fun a b c => g (f a b c)) p q r
  | map4 f p q r s => map4 (fun a b c d => g (f a b c d)) p q r s
  | p => map g p

/-! ## Choice and conditions -/

/-- The first of the parsers that succeeds or consumes. -/
def oneOf (ps : List (Parser τ ρ ω α)) : Parser τ ρ ω α :=
  let table := ps.toArray
  choice table.size fun i => table[i]

@[simp] theorem expected_oneOf (ps : List (Parser τ ρ ω α)) :
    (oneOf ps).expected = Expected.union (ps.map expected) := by
  rw [oneOf, expected_choice, ofFn_getElem_toArray]

/-- A parser or else another. -/
def orElse (p q : Parser τ ρ ω α) : Parser τ ρ ω α := oneOf [p, q]

@[simp] theorem expected_orElse (p q : Parser τ ρ ω α) :
    (orElse p q).expected = p.expected ++ q.expected := by
  simp [orElse, Expected.union]

/-- A parser or nothing. -/
def optional (p : Parser τ ρ ω α) : Parser τ ρ ω (Option α) :=
  orElse (map some p) (map (fun _ => none) unit)

/-- Succeeds where the parser fails; the message of a failure lists what was not to be found. -/
def notThere [TokenText τ] (p : Parser τ ρ ω α) : Parser τ ρ ω Unit :=
  negate ("Expected not " ++ ", ".intercalate (p.expected.map Expected.render)) p

/-- A parser whose value has to be accepted, with a fixed message. -/
def checkOr (accepts : α → Bool) (message : String) (p : Parser τ ρ ω α) : Parser τ ρ ω α :=
  check accepts (fun _ => message) p

/-- A parser whose value has to be accepted. -/
def checked (accepts : α → Bool) (p : Parser τ ρ ω α) : Parser τ ρ ω α :=
  checkOr accepts "Assertion failed" p

/-- A parser whose expectations stand behind a label. -/
def labelled (label : String) (p : Parser τ ρ ω α) : Parser τ ρ ω α :=
  withExpected [.labelled label p.expected] p

/-- Like `labelled`, refusing the empty label. -/
def labelled? (label : String) (p : Parser τ ρ ω α) : Except GrammarError (Parser τ ρ ω α) :=
  if label.isEmpty then .error (.missingArgument "label") else .ok (labelled label p)

/-! ## Repetition -/

/-- A chain, or the seed where there is none. -/
def chainOrSeed (name : String) (seed : β) (combine : β → α → β) (p : Parser τ ρ ω α) :
    Parser τ ρ ω β :=
  orElse (chain name seed combine p) (map (fun _ => seed) unit)

/-- The values of a parser repeated at least once. -/
def many1 (name : String) (p : Parser τ ρ ω α) : Parser τ ρ ω (List α) :=
  adapt List.reverse (chain name [] (fun vs v => v :: vs) p)

/-- The values of a parser repeated any number of times. -/
def many (name : String) (p : Parser τ ρ ω α) : Parser τ ρ ω (List α) :=
  orElse (many1 name p) empty

/-- A parser repeated at least once, its values dropped. -/
def skipMany1 (name : String) (p : Parser τ ρ ω α) : Parser τ ρ ω Unit :=
  chain name () (fun _ _ => ()) p

/-- A parser repeated any number of times, its values dropped. -/
def skipMany (name : String) (p : Parser τ ρ ω α) : Parser τ ρ ω Unit :=
  orElse (skipMany1 name p) unit

/-- Any number of values with separators between them. -/
def sepBy (name : String) (p : Parser τ ρ ω α) (separator : Parser τ ρ ω β) :
    Parser τ ρ ω (List α) :=
  orElse (separated name p separator) empty

/-- Any number of values with separators between them and perhaps one behind the last. -/
def sepEndBy (name : String) (p : Parser τ ρ ω α) (separator : Parser τ ρ ω β) :
    Parser τ ρ ω (List α) :=
  orElse (optionallyTerminated name p separator) empty

/-- At least one value, each followed by a separator. The name is that of `before p separator`. -/
def endBy1 (name : String) (p : Parser τ ρ ω α) (separator : Parser τ ρ ω β) :
    Parser τ ρ ω (List α) :=
  many1 name (before p separator)

/-- Any number of values, each followed by a separator. The name is that of
    `before p separator`. -/
def endBy (name : String) (p : Parser τ ρ ω α) (separator : Parser τ ρ ω β) :
    Parser τ ρ ω (List α) :=
  many name (before p separator)

/-! ## Reports -/

/-- Leaves a note on each value. -/
def tap (note : α → ω) (p : Parser τ ρ ω α) : Parser τ ρ ω α := observe (fun v => .tap (note v)) p

/-- Logs a text for each value. -/
def trace (message : String) (p : Parser τ ρ ω α) : Parser τ ρ ω α :=
  observe (fun _ => .message message) p

/-- Logs a text made from each value. -/
def traceWith (message : α → String) (p : Parser τ ρ ω α) : Parser τ ρ ω α :=
  observe (fun v => .message (message v)) p

/-- Logs each value. -/
def traceValue (render : α → String) (p : Parser τ ρ ω α) : Parser τ ρ ω α :=
  observe (fun v => .value (render v)) p

end Parser

end CommittedChoice
