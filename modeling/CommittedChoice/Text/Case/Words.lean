import CommittedChoice.Text.Case.Context
import CommittedChoice.Text.Case.Lower
import CommittedChoice.Text.Case.Upper

set_option autoImplicit false

/-! # Case of whole texts

A text is mapped character by character, but for the capital sigma, whose lower-case form depends on
whether it ends a word. -/

namespace CommittedChoice.Text

/-- Whether the next character that counts has a case. -/
def meetsCased (cs : List Char) : Bool :=
  match cs.dropWhile isCaseIgnorable with
  | [] => false
  | c :: _ => isCased c

/-- Whether a letter ends a word: a cased character comes before it and none follows. `before` is
    the text before the letter, last character first. -/
def endsWord (before after : List Char) : Bool := meetsCased before && !meetsCased after

/-- The lower-case form of the rest of a text. `before` is what precedes it, last character
    first. -/
def lowerFrom (before : List Char) : List Char → List Char
  | [] => []
  | c :: after =>
      (if c = 'Σ' then [if endsWord before after then 'ς' else 'σ'] else lowerChar c)
        ++ lowerFrom (c :: before) after

/-- The lower-case form of a text. -/
def lowerText (text : List Char) : List Char := lowerFrom [] text

/-- The upper-case form of a text. -/
def upperText (text : List Char) : List Char := text.flatMap upperChar

end CommittedChoice.Text
