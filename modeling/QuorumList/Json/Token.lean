import QuorumList.Text
import QuorumList.Json.Numeral

/-!
The tokens of a JSON text.

Scanning is lazy about meaning: a string is kept as the pieces that were written, so that a lone
half of a surrogate pair or a stray byte only matters to a reader who needs the characters, and a
number is kept as its digits.  The first place where no token can start ends the scan with the
token `bad`; blanks between tokens are dropped.
-/
namespace QuorumList.Json

/-- One element of a string as written: a character (written plainly or by a short escape), a
16-bit unit written in hexadecimal, or a byte that belongs to no character. -/
inductive Piece where
  | char (c : Char)
  | unit (code : Nat)
  | stray (byte : UInt8)
deriving DecidableEq, Repr

/-- A token; `bad` stands for everything from the first place where no token can start. -/
inductive Token where
  | openArray
  | closeArray
  | openObject
  | closeObject
  | comma
  | colon
  | null
  | bool (value : Bool)
  | number (numeral : Numeral)
  | string (pieces : List Piece)
  | bad
deriving DecidableEq, Repr

namespace Token

/-- Blanks may stand between tokens: space, tab, line feed and carriage return. -/
def isBlank (c : Char) : Bool :=
  c = ' ' || c = '\t' || c = '\n' || c = '\r'

/-- The value of a hexadecimal digit. -/
def hexDigit? (c : Char) : Option Nat :=
  if '0' ≤ c ∧ c ≤ '9' then some (c.toNat - '0'.toNat)
  else if 'a' ≤ c ∧ c ≤ 'f' then some (c.toNat - 'a'.toNat + 10)
  else if 'A' ≤ c ∧ c ≤ 'F' then some (c.toNat - 'A'.toNat + 10)
  else none

/-- The unit that four hexadecimal digits spell. -/
def hexUnit? (a b c d : Char) : Option Nat := do
  let a ← hexDigit? a
  let b ← hexDigit? b
  let c ← hexDigit? c
  let d ← hexDigit? d
  pure (((a * 16 + b) * 16 + c) * 16 + d)

/-- The character that a short escape stands for. -/
def shortEscape? : Char → Option Char
  | '"' => some '"'
  | '\\' => some '\\'
  | '/' => some '/'
  | 'b' => some '\x08'
  | 'f' => some '\x0c'
  | 'n' => some '\n'
  | 'r' => some '\r'
  | 't' => some '\t'
  | _ => none

/-- The pieces of a string behind its opening quote, and the text behind its closing quote.  A
control character, an unknown escape or the end of the text refuses the string. -/
def stringRest? : Text → Option (List Piece × Text)
  | .char '"' :: rest => some ([], rest)
  | .char '\\' :: .char 'u' :: .char a :: .char b :: .char c :: .char d :: rest =>
      match hexUnit? a b c d, stringRest? rest with
      | some code, some (pieces, rest) => some (.unit code :: pieces, rest)
      | _, _ => none
  | .char '\\' :: .char e :: rest =>
      match shortEscape? e, stringRest? rest with
      | some c, some (pieces, rest) => some (.char c :: pieces, rest)
      | _, _ => none
  | .char c :: rest =>
      if c = '\\' ∨ c < ' ' then none
      else (stringRest? rest).map fun (pieces, rest) => (.char c :: pieces, rest)
  | .stray b :: rest =>
      (stringRest? rest).map fun (pieces, rest) => (.stray b :: pieces, rest)
  | [] => none

/-- The decimal digits at the front of a text, and the text behind them. -/
def digits : Text → List Char × Text
  | .char c :: rest =>
      if c.isDigit then
        let (ds, rest) := digits rest
        (c :: ds, rest)
      else ([], .char c :: rest)
  | text => ([], text)

/-- Whole digits: one zero alone, or digits that start with another digit. -/
def wholeDigits? (text : Text) : Option (List Char × Text) :=
  match digits text with
  | ([], _) => none
  | ('0' :: _ :: _, _) => none
  | (ds, rest) => some (ds, rest)

/-- The fraction digits, if a point comes next; at least one digit follows a point. -/
def fraction? : Text → Option (Option (List Char) × Text)
  | .char '.' :: rest =>
      match digits rest with
      | ([], _) => none
      | (ds, rest) => some (some ds, rest)
  | text => some (none, text)

/-- The sign and the digits of the exponent behind its `e`; the flag says whether it is negative. -/
def exponentRest? (text : Text) : Option (Option (Bool × List Char) × Text) :=
  let (negative, text) :=
    match text with
    | .char '+' :: rest => (false, rest)
    | .char '-' :: rest => (true, rest)
    | text => (false, text)
  match digits text with
  | ([], _) => none
  | (ds, rest) => some (some (negative, ds), rest)

/-- The exponent, if an `e` comes next. -/
def exponent? : Text → Option (Option (Bool × List Char) × Text)
  | .char 'e' :: rest => exponentRest? rest
  | .char 'E' :: rest => exponentRest? rest
  | text => some (none, text)

/-- A number without its sign. -/
def numberRest? (negative : Bool) (text : Text) : Option (Token × Text) := do
  let (whole, rest) ← wholeDigits? text
  let (fraction, rest) ← fraction? rest
  let (exponent, rest) ← exponent? rest
  pure (.number ⟨negative, whole, fraction, exponent⟩, rest)

/-- The token at the front of a text that starts with no blank, and the text behind it. -/
def next? : Text → Option (Token × Text)
  | .char '[' :: rest => some (.openArray, rest)
  | .char ']' :: rest => some (.closeArray, rest)
  | .char '\x7b' :: rest => some (.openObject, rest)
  | .char '\x7d' :: rest => some (.closeObject, rest)
  | .char ',' :: rest => some (.comma, rest)
  | .char ':' :: rest => some (.colon, rest)
  | .char 'n' :: .char 'u' :: .char 'l' :: .char 'l' :: rest => some (.null, rest)
  | .char 't' :: .char 'r' :: .char 'u' :: .char 'e' :: rest => some (.bool true, rest)
  | .char 'f' :: .char 'a' :: .char 'l' :: .char 's' :: .char 'e' :: rest =>
      some (.bool false, rest)
  | .char '"' :: rest => (stringRest? rest).map fun (pieces, rest) => (.string pieces, rest)
  | .char '-' :: rest => numberRest? true rest
  | text => numberRest? false text

/-- The tokens of a text.  `fuel` bounds their number and is the length of the text. -/
def scan : Nat → Text → List Token
  | _, [] => []
  | 0, _ => []
  | fuel + 1, glyph :: rest =>
      match glyph with
      | .stray _ => [.bad]
      | .char c =>
          if isBlank c then scan fuel rest
          else
            match next? (.char c :: rest) with
            | none => [.bad]
            | some (token, rest) => token :: scan fuel rest

/-- The tokens of a whole text. -/
def ofText (text : Text) : List Token :=
  scan text.length text

end Token

end QuorumList.Json
