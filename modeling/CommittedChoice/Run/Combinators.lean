import CommittedChoice.Run

set_option autoImplicit false

/-! # How computations combine

The computations behind the parsers, one for each way to build a parser from others. They are stated
for any computations that end with an outcome, so that their laws can be used without looking into
the parsers.

A sequence reports each failure with the expectations of the whole (`component`), a choice takes the
first outcome that is final (`choice`), speculation keeps a bookmark while it tries (`lookahead`,
`safe`), and a loop goes on until its body fails (`rounds`). Loops are bounded by the tokens left:
every round but the last reads one, so the bound is not reached. -/

namespace CommittedChoice

variable {τ ω α β γ : Type}

namespace Run

/-! ## Leaves -/

/-- One token that is accepted. -/
def satisfy (ruler : Ruler τ) (accepts : τ → Bool) (expected : List (Expected τ)) :
    Run τ ω (Outcome τ) := do
  match (← getState).peek with
  | none => failAtEnd expected false
  | some t =>
      if accepts t then
        advance ruler
        return .success t true
      else failAtToken expected t false

/-- One token for each test. `earlier` says whether a token was read before. -/
def spelled (ruler : Ruler τ) (expected : List (Expected τ)) (earlier : Bool) :
    List (τ → Bool) → Run τ ω (Outcome (List τ))
  | [] => return .success [] earlier
  | accepts :: tests => do
      match (← getState).peek with
      | none => failAtEnd expected earlier
      | some t =>
          if accepts t then
            advance ruler
            return (← spelled ruler expected true tests).map (t :: ·)
          else failAtToken expected t earlier

/-- The message of a parse that should have ended. -/
def notEndedMessage : String := "Expected the state to have ended but found more content."

/-- The end of the input. -/
def endOfInput (expected : List (Expected τ)) : Run τ ω (Outcome Unit) := do
  match (← getState).peek with
  | none => return .success () false
  | some t => fail expected (some t) notEndedMessage false false

/-! ## Sequences -/

/-- A component of a sequence. `earlier` says whether the components before it consumed. A failure
    is reported with the expectations of the whole sequence. -/
def component (expected : List (Expected τ)) (earlier : Bool) (x : Run τ ω (Outcome α))
    (next : α → Bool → Run τ ω (Outcome β)) : Run τ ω (Outcome β) := do
  match ← x with
  | .success v consumed => next v (earlier || consumed)
  | .failure consumed => forward expected (earlier || consumed)

/-- All components of a list in order. -/
def all (expected : List (Expected τ)) (earlier : Bool) :
    List (Run τ ω (Outcome α)) → Run τ ω (Outcome (List α))
  | [] => return .success [] earlier
  | x :: xs =>
      component expected earlier x fun v consumed =>
        return (← all expected consumed xs).map (v :: ·)

/-- A parser and then one that depends on its value; failures are left as they are. -/
def dependent (f : α → β → γ) (x : Run τ ω (Outcome α)) (next : α → Run τ ω (Outcome β)) :
    Run τ ω (Outcome γ) := do
  match ← x with
  | .success v consumed => return ((← next v).map (f v)).after consumed
  | .failure consumed => return .failure consumed

/-! ## Choice -/

/-- The message of a choice without alternatives. -/
def noAlternativeMessage : String := "OneOf had no arguments."

/-- The error that lies further on; the first one if neither does. -/
def further (best : Option (ParseError τ)) (error : ParseError τ) : ParseError τ :=
  match best with
  | none => error
  | some best => if best.position < error.position then error else best

/-- Tries alternatives in order until one is final. `best` is the furthest error of those before;
    if no alternative is final, `exhausted` goes on from the furthest error of all. -/
def alternatives (exhausted : Option (ParseError τ) → Run τ ω (Outcome α))
    (best : Option (ParseError τ)) : List (Run τ ω (Outcome α)) → Run τ ω (Outcome α)
  | [] => exhausted best
  | x :: xs => do
      let outcome ← x
      if outcome.isCommitted then return outcome
      else alternatives exhausted (some (further best (← getState).error)) xs

/-- The first alternative that is final. If there is none, the furthest error is reported with the
    expectations of the whole choice. -/
def choice (expected : List (Expected τ)) (xs : List (Run τ ω (Outcome α))) :
    Run τ ω (Outcome α) :=
  alternatives
    (fun
      | none => fail expected none noAlternativeMessage false false
      | some error => do
          emit (.alternativesFailed xs.length error.position)
          modifyState fun s => { s with error }
          forward expected false)
    none xs

/-! ## Conditions -/

/-- Succeeds where the parser fails, with its consumption. The failure points at the place where the
    attempt started. -/
def negate (expected : List (Expected τ)) (message : String) (x : Run τ ω (Outcome α)) :
    Run τ ω (Outcome Unit) := do
  let before ← getState
  match ← x with
  | .success _ consumed =>
      modifyState fun s =>
        { s with error := ⟨⟨before.peek, before.position, false⟩, expected, message⟩ }
      return .failure consumed
  | .failure consumed => return .success () consumed

/-- Accepts or rejects the value of a success. -/
def check (expected : List (Expected τ)) (accepts : α → Bool) (message : α → String)
    (x : Run τ ω (Outcome α)) : Run τ ω (Outcome α) := do
  match ← x with
  | .success v consumed =>
      if accepts v then return .success v consumed
      else fail expected none (message v) consumed false
  | .failure consumed => return .failure consumed

/-! ## Speculation -/

/-- A success goes back to where it started; a failure is left as it is. -/
def lookahead (x : Run τ ω (Outcome α)) : Run τ ω (Outcome α) :=
  speculate x fun outcome => do
    match outcome with
    | .success v _ =>
        modifyState State.rewind
        return .success v false
    | .failure consumed =>
        modifyState State.popBookmark
        return .failure consumed

/-- A failure goes back to where it started; a success is left as it is. -/
def safe (x : Run τ ω (Outcome α)) : Run τ ω (Outcome α) :=
  speculate x fun outcome => do
    match outcome with
    | .success v consumed =>
        modifyState State.popBookmark
        return .success v consumed
    | .failure _ =>
        modifyState State.rewind
        return .failure false

/-! ## Repetition -/

/-- A bound on the rounds of a loop: each round but the last reads a token. -/
def bound : Run τ ω Nat := return (← getState).place.rest.length + 1

/-- The rounds of a loop after the first. `acc` is the fold of the `count` values so far. A body that
    fails without consuming ends the loop, one that fails after consuming fails it, and one that
    succeeds without consuming is a fault. -/
def rounds (loop : Loop) (name : String) (combine : β → α → β) (x : Run τ ω (Outcome α)) :
    Nat → β → Bool → Nat → Run τ ω (Outcome β)
  | 0, _, _, _ => stop .unfinished
  | fuel + 1, acc, consumed, count => do
      match ← x with
      | .success _ false => loopFault loop name
      | .success v true => rounds loop name combine x fuel (combine acc v) true (count + 1)
      | .failure true => return .failure true
      | .failure false =>
          emit (.ended loop count)
          return .success acc consumed

/-- Repeats a parser until it fails, folding its values. -/
def chain (name : String) (seed : β) (combine : β → α → β) (x : Run τ ω (Outcome α)) :
    Run τ ω (Outcome β) := do
  match ← x with
  | .success v consumed => rounds .chain name combine x (← bound) (combine seed v) consumed 1
  | .failure consumed => return .failure consumed

/-- A separator and a value, of which the value is kept. -/
def continuation (expected : List (Expected τ)) (separator : Run τ ω (Outcome β))
    (x : Run τ ω (Outcome α)) : Run τ ω (Outcome α) :=
  component expected false separator fun _ earlier =>
    component expected earlier x fun v consumed => return .success v consumed

/-- Values with separators between them. A separator that consumed has to be followed by a value. -/
def separated (name : String) (expected : List (Expected τ)) (x : Run τ ω (Outcome α))
    (separator : Run τ ω (Outcome β)) : Run τ ω (Outcome (List α)) := do
  match ← x with
  | .success v consumed =>
      let next := continuation expected separator x
      let outcome ← rounds .separated name (fun vs v => v :: vs) next (← bound) [v] consumed 1
      return outcome.map List.reverse
  | .failure consumed => return .failure consumed

/-- The rest of a list of which the last value may be followed by a separator. `found` holds the
    values so far, the last one first. -/
def optionallyTerminatedRounds (name : String) (x : Run τ ω (Outcome α))
    (separator : Run τ ω (Outcome β)) : Nat → List α → Bool → Run τ ω (Outcome (List α))
  | 0, _, _ => stop .unfinished
  | fuel + 1, found, consumed => do
      match ← separator with
      | .failure true => return .failure true
      | .failure false => return .success found.reverse consumed
      | .success _ separatorConsumed =>
          match ← x with
          | .success v valueConsumed =>
              if separatorConsumed || valueConsumed then
                optionallyTerminatedRounds name x separator fuel (v :: found) true
              else loopFault .optionallyTerminated name
          | .failure true => return .failure true
          | .failure false =>
              emit (.ended .optionallyTerminated found.length)
              return .success found.reverse (consumed || separatorConsumed)

/-- Values with separators between them and perhaps one behind the last. -/
def optionallyTerminated (name : String) (x : Run τ ω (Outcome α))
    (separator : Run τ ω (Outcome β)) : Run τ ω (Outcome (List α)) := do
  match ← x with
  | .success v consumed =>
      optionallyTerminatedRounds name x separator (← bound) [v] consumed
  | .failure consumed => return .failure consumed

end Run

end CommittedChoice
