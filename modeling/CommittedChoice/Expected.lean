set_option autoImplicit false

/-! # Expectations

An `Expected` describes input that would have let a parser go on. Parsers carry a list of them;
alternatives join their lists as they are (`Expected.union`), while the components of a sequence
are welded (`Expected.concat`): neighbouring components that each expect one run of tokens read as
a single longer run. -/

namespace CommittedChoice

/-- The text by which a token appears in descriptions and reports. -/
class TokenText (τ : Type) where
  text : τ → String

instance : TokenText Char := ⟨String.singleton⟩

instance : TokenText String := ⟨id⟩

instance : TokenText Int := ⟨Int.repr⟩

/-- Input that would have been accepted. -/
inductive Expected (τ : Type) where
  /-- A run of tokens. -/
  | tokens (ts : List τ)
  /-- Whatever the labelled parser accepts, with the expectations behind the label. -/
  | labelled (label : String) (causes : List (Expected τ))
  /-- The end of the input. -/
  | endOfInput
  /-- Nothing: no input would have helped. -/
  | noInput

namespace Expected

variable {τ : Type}

/-- The expectations behind a label; an entry without label has none. -/
def causes : Expected τ → List (Expected τ)
  | labelled _ causes => causes
  | _ => []

/-- The text of one entry, without its causes. -/
def render [TokenText τ] : Expected τ → String
  | tokens ts => ", ".intercalate (ts.map TokenText.text)
  | labelled label _ => "\"" ++ label ++ "\""
  | endOfInput => "EOF"
  | noInput => "No Input"

/-! ## Alternatives -/

/-- The expectations of alternatives: all of them, in order. -/
def union (lists : List (List (Expected τ))) : List (Expected τ) := lists.flatten

/-! ## Consecutive components -/

/-- An entry that is not an empty run of tokens. -/
def isProper : Expected τ → Bool
  | tokens [] => false
  | _ => true

/-- A pending run of tokens as entries: an empty run is no entry. -/
def closeRun (run : List τ) : List (Expected τ) :=
  if run.isEmpty then [] else [tokens run]

/-- Joins components from the left. `run` holds the tokens of the components just passed that each
    expected one run; another such component extends it and any other component ends it. -/
def weld (run : List τ) : List (List (Expected τ)) → List (Expected τ)
  | [] => closeRun run
  | [tokens ts] :: rest => weld (run ++ ts) rest
  | entries :: rest => closeRun run ++ entries ++ weld [] rest

/-- The components that say something: empty runs are dropped, and so is a component of which
    nothing is left. -/
def proper (lists : List (List (Expected τ))) : List (List (Expected τ)) :=
  (lists.map (·.filter isProper)).filter (fun entries => !entries.isEmpty)

/-- The expectations of consecutive components. -/
def concat (lists : List (List (Expected τ))) : List (Expected τ) := weld [] (proper lists)

end Expected

end CommittedChoice
