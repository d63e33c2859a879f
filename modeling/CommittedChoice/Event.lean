import CommittedChoice.Cells
import CommittedChoice.GrammarError
import CommittedChoice.Position

set_option autoImplicit false

/-! # Events

What a parse tells about itself, in order. Parsers report how they ended; `Remark`s are reports that
the author of a grammar asked for. Taps go to their own list (`Event.tap?`); all other events have a
log entry with a level, a target and named fields (`Event.entry?`). -/

namespace CommittedChoice

/-- The loops that can find their body not consuming. -/
inductive Loop where
  | chain
  | separated
  | optionallyTerminated
deriving DecidableEq

namespace Loop

/-- The name of a loop in a fault. -/
def name : Loop → String
  | chain => "ChainAtLeastOnceL"
  | separated => "SeparatedAtLeastOnce"
  | optionallyTerminated => "SeparatedAndOptionallyTerminatedAtLeastOnce"

/-- The target under which a loop logs. -/
def target : Loop → String
  | chain => "parser::chain"
  | separated => "parser::separated"
  | optionallyTerminated => "parser::separated"

/-- What a loop logs when it ends; a list that may be terminated logs only an end behind a
    separator. -/
def endMessage : Loop → String
  | chain => "chain ended"
  | separated => "list ended"
  | optionallyTerminated => "list ended with a trailing separator"

/-- What a loop calls the number of its values. -/
def countName : Loop → String
  | chain => "iterations"
  | separated => "count"
  | optionallyTerminated => "count"

/-- The fault of a loop whose body, named `parser`, does not consume. -/
def fault (loop : Loop) (parser : String) : GrammarError := .reentry loop.name parser

end Loop

/-- A report asked for by the author of a grammar. -/
inductive Remark (ω : Type) where
  /-- A text to log. -/
  | message (text : String)
  /-- The text of a value to log. -/
  | value (text : String)
  /-- A note for the list of taps. -/
  | tap (note : ω)

/-- Something that happened during a parse. -/
inductive Event (ω : Type) where
  /-- A recursive parser is resolved. -/
  | resolving (cell : Cell)
  /-- A choice failed, the furthest error being at `position`. -/
  | alternativesFailed (alternatives : Nat) (position : Position)
  /-- A loop ended after some values. -/
  | ended (loop : Loop) (count : Nat)
  /-- A loop found that its body does not consume. -/
  | looped (loop : Loop) (parser : String) (position : Position)
  /-- A report asked for. -/
  | remark (r : Remark ω)
  /-- The whole parse succeeded. -/
  | succeeded (consumed : Bool) (position : Position)
  /-- The whole parse failed. -/
  | failed (consumed : Bool) (position : Position) (message : String)

/-! ## Log entries -/

/-- How much an entry matters. -/
inductive Level where
  | trace
  | debug
  | error
deriving DecidableEq

/-- The word for a level. -/
def Level.render : Level → String
  | trace => "TRACE"
  | debug => "DEBUG"
  | error => "ERROR"

/-- The value of a field. -/
inductive FieldValue where
  | count (n : Nat)
  | flag (b : Bool)
  | text (s : String)
deriving DecidableEq

/-- A line of the log. -/
structure LogEntry where
  level : Level
  target : String
  fields : List (String × FieldValue)
deriving DecidableEq

namespace Event

variable {ω : Type}

/-- The note of a tap. -/
def tap? : Event ω → Option ω
  | remark (.tap note) => some note
  | _ => none

/-- The log entry of an event; a tap has none. -/
def entry? : Event ω → Option LogEntry
  | resolving _ =>
      some ⟨.trace, "parser::recursive", [("message", .text "resolving recursive parser")]⟩
  | alternativesFailed alternatives position =>
      some ⟨.trace, "parser::one_of",
        [("message", .text "all alternatives failed"), ("alternatives", .count alternatives),
          ("position", .text position.render)]⟩
  | ended loop count =>
      some ⟨.trace, loop.target,
        [("message", .text loop.endMessage), (loop.countName, .count count)]⟩
  | looped loop parser position =>
      some ⟨.error, loop.target,
        [("message", .text (loop.fault parser).message), ("position", .text position.render)]⟩
  | remark (.message text) => some ⟨.debug, "parser::trace", [("message", .text text)]⟩
  | remark (.value text) =>
      some ⟨.debug, "parser::trace", [("message", .text "parsed"), ("value", .text text)]⟩
  | remark (.tap _) => none
  | succeeded consumed position =>
      some ⟨.debug, "parser::run",
        [("message", .text "parse succeeded"), ("consumed", .flag consumed),
          ("position", .text position.render)]⟩
  | failed consumed position message =>
      some ⟨.debug, "parser::run",
        [("message", .text message), ("consumed", .flag consumed),
          ("position", .text position.render)]⟩

end Event

end CommittedChoice
