import CommittedChoice.Json

set_option autoImplicit false

/-! # Reading a configuration

A configuration is written as a JSON object whose unknown members are passed over, or as an array of
the fields in order. A field that is left out has its standard value; one that is given twice, or
with a value it cannot hold, makes the text unreadable. -/

namespace CommittedChoice

namespace Config

/-- A field that holds a number: absent, or given once and in range. -/
def naturalField (fallback : Nat) : List Json.Value → Option Nat
  | [] => some fallback
  | [.natural n] => if n ≤ Position.maxCoordinate then some n else none
  | _ => none

/-- A field that holds a truth value: absent, or given once. -/
def booleanField (fallback : Bool) : List Json.Value → Option Bool
  | [] => some fallback
  | [.boolean b] => some b
  | _ => none

/-- The configuration of a document, given the values of each field. -/
def ofFields? (values : String → Nat → List Json.Value) : Option Config := do
  let standard : Config := {}
  let tabWidth ← naturalField standard.tabWidth (values "tab_width" 0)
  let resetColumnOnNewline ←
    booleanField standard.resetColumnOnNewline (values "reset_column_on_newline" 1)
  let firstLine ← naturalField standard.firstLine (values "first_line" 2)
  let firstColumn ← naturalField standard.firstColumn (values "first_column" 3)
  return { tabWidth, resetColumnOnNewline, firstLine, firstColumn }

/-- The configuration that a document describes. The members of an object are found by name, the
    elements of an array by place. -/
def ofDocument? : Json.Document → Option Config
  | .members ms => do
      let named ← ms.mapM fun m => (Json.StringUnit.decode m.1).map fun name => (name, m.2)
      ofFields? fun name _ =>
        (named.filter fun m => m.1 = name.toList).map fun m => m.2
  | .elements vs =>
      if vs.length ≤ 4 then ofFields? fun _ i => (vs.drop i).take 1 else none

/-- Reads a usable configuration. -/
def ofJson (text : String) : Except ConfigError Config := do
  match (Json.Document.ofString? text).bind ofDocument? with
  | none => throw .unreadable
  | some config =>
      config.validate
      return config

end Config

end CommittedChoice
