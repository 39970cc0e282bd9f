import QuorumList.Settings.Number
import QuorumList.Settings.Path

/-!
Blanks, strings and keys of a settings file.

A string stands between quotes or between apostrophes; only the former has escapes.  Three marks on
either side let a string run over several lines; up to two more of them may stand in front of the
closing ones.  A key is a row of names with points between them, each a word or a string of one
line.
-/
namespace QuorumList.Settings.File

/-! ### Blanks and comments -/

/-- Blanks between the parts of a line. -/
def isBlank (c : Char) : Bool :=
  c = ' ' || c = '\t'

/-- The text without blanks in front. -/
def skipBlanks (cs : List Char) : List Char :=
  cs.dropWhile isBlank

/-- Control characters other than the tab stand in no line of a file. -/
def isForbidden (c : Char) : Bool :=
  (c < ' ' && c ≠ '\t') || c = '\x7f'

/-- The text behind blanks, line ends and comments; the flag says that a comment is open. -/
def skipLines? : (comment : Bool) → List Char → Option (List Char)
  | _, '\n' :: rest => skipLines? false rest
  | true, c :: rest => if isForbidden c then none else skipLines? true rest
  | false, '#' :: rest => skipLines? true rest
  | false, c :: rest => if isBlank c then skipLines? false rest else some (c :: rest)
  | _, [] => some []

/-- The text behind the end of a line: blanks, and perhaps a comment. -/
def lineEnd? (cs : List Char) : Option (List Char) :=
  match skipBlanks cs with
  | [] => some []
  | '\n' :: rest => some rest
  | '#' :: rest => skipLines? true rest
  | _ => none

/-- The text without a byte order mark in front. -/
def skipMark (cs : List Char) : List Char :=
  if cs.head? = some '\uFEFF' then cs.tail else cs

/-- Write the two characters that may end a line as one. -/
def plainLineEnds : List Char → List Char
  | '\r' :: '\n' :: rest => '\n' :: plainLineEnds rest
  | c :: rest => c :: plainLineEnds rest
  | [] => []

/-! ### Strings -/

/-- The character that a short escape stands for. -/
def shortEscape? : Char → Option Char
  | '"' => some '"'
  | '\\' => some '\\'
  | 'b' => some '\x08'
  | 'e' => some '\x1b'
  | 't' => some '\t'
  | 'n' => some '\n'
  | 'f' => some '\x0c'
  | 'r' => some '\r'
  | _ => none

/-- The character with a number written in hexadecimal. -/
def scalar? (digits : List Char) : Option Char := do
  let n ← number? 16 digits
  if n.isValidChar then some (Char.ofNat n) else none

/-- A line ends here, perhaps behind blanks. -/
def isLineEnd (cs : List Char) : Bool :=
  (skipBlanks cs).head? = some '\n'

/-- The characters that a text with escapes stands for.  A backslash at the end of a line drops the
blanks and line ends that follow; the flag says that those are being dropped. -/
def unescaped? : (dropping : Bool) → List Char → Option (List Char)
  | true, ' ' :: rest => unescaped? true rest
  | true, '\t' :: rest => unescaped? true rest
  | true, '\n' :: rest => unescaped? true rest
  | _, '\\' :: 'x' :: a :: b :: rest =>
      match scalar? [a, b], unescaped? false rest with
      | some e, some cs => some (e :: cs)
      | _, _ => none
  | _, '\\' :: 'u' :: a :: b :: c :: d :: rest =>
      match scalar? [a, b, c, d], unescaped? false rest with
      | some e, some cs => some (e :: cs)
      | _, _ => none
  | _, '\\' :: 'U' :: a :: b :: c :: d :: e :: f :: g :: h :: rest =>
      match scalar? [a, b, c, d, e, f, g, h], unescaped? false rest with
      | some e, some cs => some (e :: cs)
      | _, _ => none
  | _, '\\' :: e :: rest =>
      if isLineEnd (e :: rest) then unescaped? true rest
      else
        match shortEscape? e, unescaped? false rest with
        | some c, some cs => some (c :: cs)
        | _, _ => none
  | _, c :: rest =>
      if c = '\\' ∨ (isForbidden c ∧ c ≠ '\n') then none
      else (unescaped? false rest).map fun cs => c :: cs
  | _, [] => some []

/-- How a string is written: the mark on either side, and whether three of them stand there. -/
structure Quotation where
  mark : Char
  long : Bool

namespace Quotation

/-- Escapes are known between quotes only. -/
def hasEscapes (q : Quotation) : Bool :=
  q.mark = '"'

/-- The end of the string, if the text starts with it: the marks that belong to the string still,
and the text behind the closing ones. -/
def closing? (q : Quotation) (cs : List Char) : Option (List Char × List Char) :=
  if q.long then
    if cs.take 3 = [q.mark, q.mark, q.mark] then
      let rest := cs.drop 3
      let more := min 2 (rest.takeWhile (· = q.mark)).length
      some (List.replicate more q.mark, rest.drop more)
    else none
  else
    match cs with
    | c :: rest => if c = q.mark then some ([], rest) else none
    | [] => none

/-- What stands in front of the end of the string, as written, and the text behind its end. -/
def written? (q : Quotation) : List Char → Option (List Char × List Char)
  | [] => none
  | c :: rest =>
      match q.closing? (c :: rest) with
      | some closed => some closed
      | none =>
          if c = '\n' ∧ !q.long then none
          else if c = '\\' ∧ q.hasEscapes then
            match rest with
            | [] => none
            | d :: rest =>
                if d = '\n' ∧ !q.long then none
                else (q.written? rest).map fun (cs, rest) => (c :: d :: cs, rest)
          else (q.written? rest).map fun (cs, rest) => (c :: cs, rest)

/-- The characters that a string stands for, given what is written. -/
def meaning? (q : Quotation) (written : List Char) : Option (List Char) :=
  if q.hasEscapes then unescaped? false written
  else if written.any fun c => isForbidden c && c ≠ '\n' then none
  else some written

/-- The characters of a string behind its opening marks, and the text behind it.  A line end right
behind three marks is not part of the string. -/
def rest? (q : Quotation) (cs : List Char) : Option (List Char × List Char) := do
  let cs := if q.long && cs.head? = some '\n' then cs.tail else cs
  let (written, rest) ← q.written? cs
  let meaning ← q.meaning? written
  pure (meaning, rest)

end Quotation

/-- The characters of the string of one line at the front of a text, and the text behind it. -/
def shortString? : List Char → Option (List Char × List Char)
  | '"' :: rest => (Quotation.mk '"' false).rest? rest
  | '\x27' :: rest => (Quotation.mk '\x27' false).rest? rest
  | _ => none

/-- The characters of the string at the front of a text, and the text behind it. -/
def string? : List Char → Option (List Char × List Char)
  | '"' :: '"' :: '"' :: rest => (Quotation.mk '"' true).rest? rest
  | '\x27' :: '\x27' :: '\x27' :: rest => (Quotation.mk '\x27' true).rest? rest
  | cs => shortString? cs

/-! ### Keys -/

/-- The name at the front of a text, and the text behind it. -/
def name? (cs : List Char) : Option (String × List Char) :=
  match shortString? cs with
  | some (name, rest) => some (String.ofList name, rest)
  | none =>
      let name := cs.takeWhile Path.isNameChar
      if name.isEmpty then none else some (String.ofList name, cs.dropWhile Path.isNameChar)

/-- The names of a key, at most so many, and the text behind it and its blanks. -/
def names? : (most : Nat) → List Char → Option (List String × List Char)
  | 0, _ => none
  | most + 1, cs => do
      let (name, rest) ← name? (skipBlanks cs)
      match skipBlanks rest with
      | '.' :: rest => do
          let (names, rest) ← names? most rest
          pure (name :: names, rest)
      | rest => pure ([name], rest)

/-- The key at the front of a text, and the text behind it and its blanks. -/
def key? (cs : List Char) : Option (List String × List Char) :=
  names? cs.length cs

end QuorumList.Settings.File
