import CommittedChoice.Config
import CommittedChoice.Parser.Eval

set_option autoImplicit false

/-! # Parsing an input

An `Input` is a list of tokens with a measure and a start position. `Input.parse` runs a parser over
it from a fresh state. What the parser resolved in earlier parses is handed in and on, so that one
parser can be used again and again. -/

namespace CommittedChoice

variable {τ ω α : Type} {ρ : Type → Type}

/-- Tokens to be parsed. -/
structure Input (τ : Type) where
  tokens : List τ
  ruler : Ruler τ
  start : Position

namespace Input

/-- A string, read character by character. -/
def ofString (text : String) : Input Char :=
  ⟨text.toList, Ruler.ofString (TextLayout.next {}), Position.first⟩

/-- A string with configured positions. -/
def ofStringWith (config : Config) (text : String) : Input Char :=
  ⟨text.toList, Ruler.ofString config.layout.next, config.start⟩

/-- A list of tokens; positions count columns only. -/
def ofTokens (tokens : List τ) : Input τ :=
  ⟨tokens, Ruler.ofTokens fun _ p => p.afterToken, Position.first⟩

/-- The input with another way to count positions. -/
def countingBy (input : Input τ) (next : τ → Position → Option Position) : Input τ :=
  { input with ruler := { input.ruler with next } }

/-- The input with another start position. -/
def startingAt (input : Input τ) (start : Position) : Input τ := { input with start }

/-- The state before anything was read. -/
def initialState (input : Input τ) : State τ := State.initial input.start input.tokens

end Input

/-! ## Results -/

/-- The result of a whole parse. -/
inductive ParseResult (τ α : Type) where
  | success (value : α) (consumed : Bool)
  | failure (error : ParseError τ) (consumed : Bool)

/-- A question that a result cannot answer. -/
inductive Misuse where
  | valueOfFailure
  | errorOfSuccess
deriving DecidableEq

/-- The text of a misuse. -/
def Misuse.message : Misuse → String
  | valueOfFailure => "Cannot read the value of a failed parse result."
  | errorOfSuccess => "Cannot read the error of a successful parse result."

namespace ParseResult

/-- The value of a success. -/
def value : ParseResult τ α → Except Misuse α
  | success v _ => .ok v
  | failure _ _ => .error .valueOfFailure

/-- The error of a failure. -/
def error : ParseResult τ α → Except Misuse (ParseError τ)
  | success _ _ => .error .errorOfSuccess
  | failure e _ => .ok e

end ParseResult

/-! ## Parsing -/

/-- Rules to which parsers refer, and how many there are. -/
structure Grammar (τ : Type) (ρ : Type → Type) (ω : Type) where
  rules : Parser.Rules τ ρ ω
  size : Nat

/-- How deep references to rules can be nested over an input of `n` tokens. A rule that is entered
    again without a token read in between would be entered forever, so each rule is nested at most
    once at each place of the input. -/
def Grammar.depth (grammar : Grammar τ ρ ω) (n : Nat) : Nat := grammar.size * (n + 1) + 1

/-- Runs a parser to the end and reports how it went. -/
def Run.toResult (x : Run τ ω (Outcome α)) : Run τ ω (ParseResult τ α) := do
  match ← x with
  | .success v consumed =>
      emit (.succeeded consumed (← getState).position)
      return .success v consumed
  | .failure consumed =>
      let error := (← getState).error
      emit (.failed consumed error.position error.message)
      return .failure error consumed

namespace Run

variable {x : Run τ ω (Outcome α)} {w v : World τ ω}

theorem run_toResult_of_error {reason : Stop} (h : x.run w = (.error reason, v)) :
    x.toResult.run w = (.error reason, v) := run_bind_of_error h

theorem run_toResult_of_success {a : α} {consumed : Bool}
    (h : x.run w = (.ok (.success a consumed), v)) :
    x.toResult.run w = (.ok (.success a consumed),
      { v with events := .succeeded consumed v.state.position :: v.events }) := run_bind_of_ok h

theorem run_toResult_of_failure {consumed : Bool} (h : x.run w = (.ok (.failure consumed), v)) :
    x.toResult.run w = (.ok (.failure v.state.error consumed),
      { v with events :=
          .failed consumed v.state.error.position v.state.error.message :: v.events }) :=
  run_bind_of_ok h

/-- The result and the last report are made from the answer, the position and the error. -/
theorem exists_run_toResult {y : Run τ ω (Outcome α)} {w' v' : World τ ω}
    {r : Except Stop (Outcome α)} (hx : x.run w = (r, v)) (hy : y.run w' = (r, v'))
    (hposition : v.state.position = v'.state.position) (herror : v.state.error = v'.state.error) :
    ∃ result last, x.toResult.run w = (result, { v with events := last ++ v.events }) ∧
      y.toResult.run w' = (result, { v' with events := last ++ v'.events }) := by
  rcases r with reason | ⟨a, consumed⟩ | consumed
  · exact ⟨_, [], run_toResult_of_error hx, run_toResult_of_error hy⟩
  · refine ⟨_, [_], run_toResult_of_success hx, ?_⟩
    rw [hposition]
    exact run_toResult_of_success hy
  · refine ⟨_, [_], run_toResult_of_failure hx, ?_⟩
    rw [herror]
    exact run_toResult_of_failure hy

end Run

/-- What a parse leaves behind: its result or why it stopped, the events in order, and the recursive
    parsers resolved by then. -/
structure Transcript (τ ω α : Type) where
  result : Except Stop (ParseResult τ α)
  events : List (Event ω)
  cells : Cells

/-- Parses an input with a parser some of whose recursive parsers are resolved. -/
def Input.parse (input : Input τ) (grammar : Grammar τ ρ ω) (p : Parser τ ρ ω α) (cells : Cells) :
    Transcript τ ω α :=
  let depth := grammar.depth input.tokens.length
  let (result, world) :=
    (p.parse input.ruler grammar.rules depth).toResult.run ⟨input.initialState, [], cells⟩
  ⟨result, world.events.reverse, world.cells⟩

theorem Input.parse_of_run {input : Input τ} {grammar : Grammar τ ρ ω} {p : Parser τ ρ ω α}
    {cells : Cells} {result : Except Stop (ParseResult τ α)} {v : World τ ω}
    (h : (p.parse input.ruler grammar.rules (grammar.depth input.tokens.length)).toResult.run
      ⟨input.initialState, [], cells⟩ = (result, v)) :
    input.parse grammar p cells = ⟨result, v.events.reverse, v.cells⟩ := by
  simp only [parse, h]

end CommittedChoice
