set_option autoImplicit false

/-! # Grammar faults

A `GrammarError` is a mistake in the grammar, not in the input: a repetition whose body can succeed
without consuming, or a parser built without an argument it needs. A fault names the parsers
involved by a short form of their full name, in which every path is cut down to its last segment
(`ParserName.shorten`). -/

namespace CommittedChoice

/-- A grammar that cannot be run. -/
inductive GrammarError where
  /-- The loop `combinator` would repeat `parser` forever. -/
  | reentry (combinator parser : String)
  /-- A mandatory argument is empty. -/
  | missingArgument (argument : String)
deriving DecidableEq

/-- The text of a fault. -/
def GrammarError.message : GrammarError → String
  | reentry combinator parser =>
      "Using '" ++ combinator ++ "' with a parser that does not consume inputs, like '"
        ++ parser ++ "', will cause an infinite loop."
  | missingArgument argument => "'" ++ argument ++ "' is a mandatory argument"

/-! ## Names of parsers -/

namespace ParserName

/-- The characters that stand between the paths of a full name. -/
def isDelimiter (c : Char) : Bool := "<>, ()&[];".toList.contains c

/-- Cuts every path of a full name down to its last segment. `segment` is the part of the current
    segment already passed, last character first. -/
def shortenFrom (segment : List Char) : List Char → List Char
  | [] => segment.reverse
  | c :: rest =>
      if c = ':' then shortenFrom [] rest
      else if isDelimiter c then segment.reverse ++ c :: shortenFrom [] rest
      else shortenFrom (c :: segment) rest

/-- The short form of a full name: `a::B<c::D, e>` reads `B<D, e>`. -/
def shorten (name : String) : String := String.ofList (shortenFrom [] name.toList)

/-- The name of a parser of which only the token and the value type are known. -/
def boxed (token value : String) : String := "BoxedParser<" ++ token ++ ", " ++ value ++ ">"

/-- All that a parser shows of itself. -/
def debugText : String := "BoxedParser \x7b .. \x7d"

/-- The name of a parser that runs two others and keeps the first value. -/
def keepFirst (token first firstValue second secondValue : String) : String :=
  "Map2<" ++ first ++ ", " ++ second ++ ", fn(" ++ firstValue ++ ", " ++ secondValue ++ ") -> "
    ++ firstValue ++ ", " ++ token ++ ", " ++ firstValue ++ ", " ++ secondValue ++ ", "
    ++ firstValue ++ ">"

end ParserName

/-- A fault at a loop, the repeated parser given by its full name. -/
def GrammarError.reentryOf (combinator fullName : String) : GrammarError :=
  .reentry combinator (ParserName.shorten fullName)

end CommittedChoice
