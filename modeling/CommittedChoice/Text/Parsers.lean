import CommittedChoice.Parser.Derived
import CommittedChoice.Text.Case.Words
import CommittedChoice.Text.WhiteSpace

set_option autoImplicit false

/-! # Parsers of text

Literal texts, classes of characters, and words made of them. Letters and digits are those of ASCII;
white space is that of Unicode. Texts that ignore case are compared character by character by their
full lower-case form. -/

namespace CommittedChoice

namespace Parser

variable {τ ω α : Type} {ρ : Type → Type}

/-! ## Strings from repetitions -/

/-- The texts of a parser repeated at least once, joined. -/
def manyString1 (name : String) (text : α → String) (p : Parser τ ρ ω α) : Parser τ ρ ω String :=
  chain name "" (fun joined v => joined ++ text v) p

/-- Reads nothing and gives the empty text. -/
def emptyString : Parser τ ρ ω String := value ""

/-- The texts of a parser repeated any number of times, joined. -/
def manyString (name : String) (text : α → String) (p : Parser τ ρ ω α) : Parser τ ρ ω String :=
  orElse (manyString1 name text p) emptyString

/-! ## Literal texts -/

/-- A given text. -/
def literal (text : String) : Parser Char ρ ω String := map String.ofList (tokens text.toList)

/-- Like `literal`, refusing the empty text. -/
def literal? (text : String) : Except GrammarError (Parser Char ρ ω String) :=
  if text.isEmpty then .error (.missingArgument "characters") else .ok (literal text)

/-- A given text in any case, read as it is written. -/
def anyCase (text : String) : Parser Char ρ ω String :=
  adapt String.ofList
    (spelled (text.toList.map fun c d => Text.lowerChar d == Text.lowerChar c)
      [.tokens (Text.lowerText text.toList), .tokens (Text.upperText text.toList)])

/-- Like `anyCase`, refusing the empty text. -/
def anyCase? (text : String) : Except GrammarError (Parser Char ρ ω String) :=
  if text.isEmpty then .error (.missingArgument "tokens") else .ok (anyCase text)

/-- A given character in any case. -/
def anyCaseChar (c : Char) : Parser Char ρ ω String := anyCase (String.singleton c)

/-! ## Classes of characters -/

/-- A character that is not excluded. -/
def charExcept (excluded : String) : Parser Char ρ ω Char :=
  candidate fun c => !excluded.toList.contains c

/-- A digit. -/
def digit : Parser Char ρ ω Char := candidateLabelled Char.isDigit "digit"

/-- A small letter. -/
def lowercase : Parser Char ρ ω Char := candidateLabelled Char.isLower "lowercase letter"

/-- A capital letter. -/
def uppercase : Parser Char ρ ω Char := candidateLabelled Char.isUpper "uppercase letter"

/-- A letter. -/
def letter : Parser Char ρ ω Char := candidateLabelled Char.isAlpha "letter"

/-- Whether a character can stand in a word after its first letter. -/
def isWordChar (c : Char) : Bool := c.isAlphanum || c == '_'

/-- A letter, a digit or an underscore. -/
def letterOrDigit : Parser Char ρ ω Char := candidateLabelled isWordChar "letter or digit"

/-- A character that belongs to no word and is no white space. -/
def symbol : Parser Char ρ ω Char :=
  candidateLabelled (fun c => !(isWordChar c || Text.isWhiteSpace c)) "symbol"

/-- A character of white space. -/
def whiteSpace : Parser Char ρ ω Char := candidateLabelled Text.isWhiteSpace "whitespace"

/-! ## Runs of characters -/

/-- The name of a class of characters in faults; a class consumes, so that no fault shows it. -/
def className : String := "character class"

/-- All white space that follows. -/
def whiteSpaces : Parser Char ρ ω (List Char) := labelled "whitespaces" (many className whiteSpace)

/-- All white space that follows, as a text. -/
def whiteSpaceString : Parser Char ρ ω String :=
  labelled "whitespaces" (manyString className String.singleton whiteSpace)

/-- Passes over white space. -/
def skipWhiteSpaces : Parser Char ρ ω Unit :=
  labelled "skip whitespaces" (skipMany className whiteSpace)

/-- The end of a line, with or without a carriage return. -/
def endOfLine : Parser Char ρ ω String :=
  labelled "End of line" (orElse (literal "\n") (literal "\r\n"))

/-- A number written in digits. -/
def digits : Parser Char ρ ω String := manyString1 className String.singleton digit

/-- A letter and the word that it starts. -/
def identifier : Parser Char ρ ω String :=
  map2 (fun head rest => String.singleton head ++ rest) letter
    (manyString className String.singleton letterOrDigit)

end Parser

end CommittedChoice
