import CommittedChoice.Position
import CommittedChoice.Expected

set_option autoImplicit false

/-! # Parse errors

A `ParseError` says where a parse failed, what stood there, what was expected instead, and why. Its
report is a text of several lines in which the causes behind a label are indented one level deeper
than the label. -/

namespace CommittedChoice

/-- What stood in the way, and where. -/
structure Cause (τ : Type) where
  unexpected : Option τ
  position : Position
  atEnd : Bool

/-- A failed parse. -/
structure ParseError (τ : Type) where
  cause : Cause τ
  expected : List (Expected τ)
  message : String

namespace ParseError

variable {τ : Type}

/-- The error of a state in which nothing has failed yet. -/
def unknown : ParseError τ := ⟨⟨none, ⟨0, 0⟩, false⟩, [], "Unknown error"⟩

/-- Where the parse failed. -/
def position (e : ParseError τ) : Position := e.cause.position

/-- The same failure with other expectations. -/
def withExpected (e : ParseError τ) (expected : List (Expected τ)) : ParseError τ :=
  { e with expected }

/-! ## The report -/

/-- The margin of an entry at a depth: four blanks a level. -/
def margin (depth : Nat) : String := String.ofList (List.replicate (4 * depth) ' ')

/-- The line of an entry, led by a line break. -/
def entryLine (depth : Nat) (text : String) : String :=
  "\n" ++ margin depth ++ "<" ++ text ++ ">"

/-- The line that announces the causes behind an entry. -/
def causesLine (depth : Nat) : String := "\n" ++ margin depth ++ "Due to: "

mutual

/-- The lines of an entry, its causes one level deeper. -/
def entryReport [TokenText τ] (depth : Nat) : Expected τ → String
  | .tokens ts => entryLine depth (Expected.tokens ts).render
  | .labelled label [] => entryLine depth (Expected.labelled label [] : Expected τ).render
  | .labelled label (cause :: causes) =>
      entryLine depth (Expected.labelled label (cause :: causes)).render
        ++ causesLine depth ++ entryReport (depth + 1) cause ++ listReport (depth + 1) causes
  | .endOfInput => entryLine depth (Expected.endOfInput : Expected τ).render
  | .noInput => entryLine depth (Expected.noInput : Expected τ).render

/-- The lines of a list of entries. -/
def listReport [TokenText τ] (depth : Nat) : List (Expected τ) → String
  | [] => ""
  | entry :: entries => entryReport depth entry ++ listReport depth entries

end

/-- What stood in the way: the end of the input, or a token if one is known. -/
def unexpectedReport [TokenText τ] (cause : Cause τ) : String :=
  if cause.atEnd then "\nUnexpected: EOF"
  else match cause.unexpected with
    | some t => "\nUnexpected: \"" ++ TokenText.text t ++ "\""
    | none => ""

/-- What was expected, if anything. -/
def expectedReport [TokenText τ] (expected : List (Expected τ)) : String :=
  if expected.isEmpty then "" else "\nExpected:" ++ listReport 1 expected

/-- The whole report. -/
def report [TokenText τ] (e : ParseError τ) : String :=
  "Parse error."
    ++ (if e.message.isEmpty then "" else "\n" ++ e.message)
    ++ unexpectedReport e.cause
    ++ expectedReport e.expected
    ++ "\nat " ++ e.position.render

end ParseError

end CommittedChoice
