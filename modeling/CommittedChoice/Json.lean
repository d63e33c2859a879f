import CommittedChoice.Input
import CommittedChoice.Text.Parsers

set_option autoImplicit false

/-! # JSON documents

Strict JSON, read with the parsers of this library. A document is an object or an array. Only what a
configuration can use is kept of a value: whole numbers written as plain digits, and truth values.
Everything else is checked and reads as `Value.other`.

A string is read as a list of units. It is decoded only where its text matters, so half a surrogate
pair is an error in a name and nowhere else. -/

namespace CommittedChoice.Json

/-! ## Values and strings -/

/-- What matters of a JSON value. -/
inductive Value where
  /-- A number written as plain digits. -/
  | natural (n : Nat)
  | boolean (b : Bool)
  | other
deriving DecidableEq

/-- A unit of a string: a character as it is written, or the number of a 16-bit unit. -/
inductive StringUnit where
  | char (c : Char)
  | code (n : Nat)
deriving DecidableEq

/-- The character of a surrogate pair. -/
def surrogatePair (high low : Nat) : Char :=
  Char.ofNat (0x10000 + (high - 0xD800) * 0x400 + (low - 0xDC00))

/-- The text of a string, unless half a surrogate pair stands alone in it. -/
def StringUnit.decode : List StringUnit → Option (List Char)
  | [] => some []
  | .char c :: rest => (decode rest).map (c :: ·)
  | .code high :: .code low :: rest =>
      if high < 0xD800 ∨ 0xDFFF < high then
        (decode (.code low :: rest)).map (Char.ofNat high :: ·)
      else if high ≤ 0xDBFF ∧ 0xDC00 ≤ low ∧ low ≤ 0xDFFF then
        (decode rest).map (surrogatePair high low :: ·)
      else none
  | .code n :: rest =>
      if n < 0xD800 ∨ 0xDFFF < n then (decode rest).map (Char.ofNat n :: ·) else none

/-- A whole document: the members of an object with their names, or the elements of an array. -/
inductive Document where
  | members (ms : List (List StringUnit × Value))
  | elements (vs : List Value)

/-- The rules of JSON to which other rules refer. -/
inductive Rule : Type → Type where
  | value : Rule Value

open CommittedChoice.Parser

/-! ## The grammar -/

/-- A parser of JSON text. -/
abbrev Reader (α : Type) : Type 1 := Parser Char Rule Empty α

/-- The blanks between the words of JSON. -/
def blanks : Reader Unit :=
  skipMany "blank" (candidate fun c => " \t\n\r".toList.contains c)

/-- A word and the blanks behind it. -/
def word {α : Type} (p : Reader α) : Reader α := before p blanks

/-- A punctuation mark. -/
def mark (c : Char) : Reader Char := word (token c)

/-- A list in brackets. -/
def listOf {α : Type} (left right : Char) (p : Reader α) : Reader (List α) :=
  between (mark left) (sepBy "item" p (mark ',')) (mark right)

/-- Digits, at least one. -/
def digitRun : Reader (List Char) := many1 "digit" digit

/-- The number that digits write. -/
def ofDigits (ds : List Char) : Nat := ds.foldl (fun n d => 10 * n + (d.toNat - '0'.toNat)) 0

/-- The whole part of a number: a zero alone, or digits that start with another. -/
def wholePart : Reader Nat :=
  orElse (map (fun _ => 0) (token '0'))
    (map2 (fun d ds => ofDigits (d :: ds))
      (candidate fun c => c.isDigit && c != '0') (many "digit" digit))

/-- The fraction of a number. -/
def fraction : Reader Unit := map2 (fun _ _ => ()) (token '.') digitRun

/-- The exponent of a number. -/
def exponent : Reader Unit :=
  map3 (fun _ _ _ => ()) (candidate fun c => c == 'e' || c == 'E')
    (optional (candidate fun c => c == '+' || c == '-')) digitRun

/-- A number. -/
def number : Reader Value :=
  map4 (fun sign n f e =>
      if sign.isNone && f.isNone && e.isNone then .natural n else .other)
    (optional (token '-')) wholePart (optional fraction) (optional exponent)

/-- The value of a hexadecimal digit. -/
def hexValue (c : Char) : Nat :=
  if c.isDigit then c.toNat - '0'.toNat
  else if c.isLower then c.toNat - 'a'.toNat + 10
  else c.toNat - 'A'.toNat + 10

/-- Whether a character is a hexadecimal digit. -/
def isHex (c : Char) : Bool := "0123456789abcdefABCDEF".toList.contains c

/-- A hexadecimal digit. -/
def hexDigit : Reader Nat := map hexValue (candidate isHex)

/-- The escaped characters that stand for one character. -/
def shortEscapes : List (Char × Char) :=
  [('"', '"'), ('\\', '\\'), ('/', '/'), ('b', '\x08'), ('f', '\x0c'), ('n', '\n'), ('r', '\r'),
    ('t', '\t')]

/-- What stands behind a backslash. -/
def escaped : Reader StringUnit :=
  orElse
    (keepSecond (token 'u')
      (map4 (fun a b c d => .code (((a * 16 + b) * 16 + c) * 16 + d))
        hexDigit hexDigit hexDigit hexDigit))
    (map (fun c => .char ((shortEscapes.lookup c).getD c))
      (candidate fun c => (shortEscapes.lookup c).isSome))

/-- One unit of a string. -/
def stringUnit : Reader StringUnit :=
  orElse (keepSecond (token '\\') escaped)
    (map StringUnit.char (candidate fun c => c != '"' && c != '\\' && 0x20 ≤ c.toNat))

/-- A string. -/
def string : Reader (List StringUnit) :=
  word (between (token '"') (many "unit" stringUnit) (token '"'))

/-- A fixed word. -/
def keyword (text : String) (v : Value) : Reader Value :=
  word (map (fun _ => v) (tokens text.toList))

/-- A named value. -/
def member (p : Reader Value) : Reader (List StringUnit × Value) :=
  map3 (fun name _ v => (name, v)) string (mark ':') p

/-- A value inside a document. -/
def nested : Reader Value := recursive 0 .shared Rule.value

/-- A value. -/
def valueBody : Reader Value :=
  oneOf
    [keyword "null" .other, keyword "true" (.boolean true), keyword "false" (.boolean false),
      word number, map (fun _ => .other) string,
      map (fun _ => .other) (listOf '[' ']' nested),
      map (fun _ => .other) (listOf '\x7b' '\x7d' (member nested))]

/-- A document. -/
def document : Reader Document :=
  between blanks
    (orElse (map .members (listOf '\x7b' '\x7d' (member nested)))
      (map .elements (listOf '[' ']' nested)))
    endOfInput

/-- The grammar of JSON. -/
def grammar : Grammar Char Rule Empty where
  rules := fun _ rule => match rule with | .value => valueBody
  size := 1

/-- Reads a whole document. -/
def Document.ofString? (text : String) : Option Document :=
  match ((Input.ofString text).parse grammar document Cells.empty).result with
  | .ok (.success d _) => some d
  | _ => none

end CommittedChoice.Json
