import QuorumList.Settings.File.Moment
import QuorumList.Settings.File.Tables
import QuorumList.Settings.File.Text

/-!
Values of a settings file.

A value is a truth value, a number, a string, a moment, a list in brackets or a table in braces.
The last two may run over several lines and have a comma behind their last part, and they do not
nest without end.
-/
namespace QuorumList.Settings.File

/-- Characters of a value that is a word. -/
def isWordChar (c : Char) : Bool :=
  !isBlank c && c ∉ ['\n', '#', ',', ']', '\x7d']

/-- The value that a word spells. -/
def ofWord? (word : List Char) : Option Given :=
  if word = ['t', 'r', 'u', 'e'] then some (.flag true)
  else if word = ['f', 'a', 'l', 's', 'e'] then some (.flag false)
  else
    match fileInteger? word with
    | some i => if isShort i then some (.integer i) else none
    | none =>
        match fileDouble? word, Moment.ofChars? word with
        | some d, _ => some (.double d)
        | none, some moment => some (.text (String.ofList moment))
        | none, none => none

/-- The word at the front of a text, and the text behind it; a blank between a date and a time is
part of their word. -/
def spanWord (cs : List Char) : List Char × List Char :=
  let word := cs.takeWhile isWordChar
  match cs.dropWhile isWordChar with
  | ' ' :: c :: rest =>
      if c.isDigit ∧ (Moment.date? word).any fun (_, behind) => behind.isEmpty then
        (word ++ ' ' :: (c :: rest).takeWhile isWordChar, (c :: rest).dropWhile isWordChar)
      else (word, ' ' :: c :: rest)
  | rest => (word, rest)

/-- The string or the word at the front of a text, and the text behind it. -/
def plainValue? (cs : List Char) : Option (Given × List Char) :=
  match string? cs with
  | some (s, rest) => some (.text (String.ofList s), rest)
  | none =>
      let (word, rest) := spanWord cs
      (ofWord? word).map fun given => (given, rest)

/-- Read a value of some depth. -/
abbrev ValueReader := List Char → Option (Given × List Char)

/-- Read a key and its value. -/
def assignment? (value? : ValueReader) (cs : List Char) :
    Option ((List String × Given) × List Char) := do
  let (key, rest) ← key? cs
  match rest with
  | '=' :: rest => do
      let (given, rest) ← value? (skipBlanks rest)
      pure ((key, given), rest)
  | _ => none

/-- The text behind the rest of a list with at most so many items. -/
def listRest? (value? : ValueReader) : (most : Nat) → List Char → Option (List Char)
  | 0, _ => none
  | most + 1, cs => do
      match ← skipLines? false cs with
      | ']' :: rest => pure rest
      | cs => do
          let (_, rest) ← value? cs
          match ← skipLines? false rest with
          | ',' :: rest => listRest? value? most rest
          | ']' :: rest => pure rest
          | _ => none

/-- The rest of a table in braces with at most so many parts behind those found, and the text behind
it. -/
def tableRest? (value? : ValueReader) :
    (most : Nat) → (found : Tables) → List Char → Option (Tables × List Char)
  | 0, _, _ => none
  | most + 1, found, cs => do
      match ← skipLines? false cs with
      | '\x7d' :: rest => pure (found, rest)
      | cs => do
          let ((key, given), rest) ← assignment? value? cs
          let found ← found.assign? [] key given
          match ← skipLines? false rest with
          | ',' :: rest => tableRest? value? most found rest
          | '\x7d' :: rest => pure (found, rest)
          | _ => none

/-- The value at the front of a text, which nests so deep at most, and the text behind it. -/
def value? : (depth : Nat) → ValueReader
  | depth + 1, '[' :: rest =>
      (listRest? (value? depth) (rest.length + 1) rest).map fun rest => (.list, rest)
  | depth + 1, '\x7b' :: rest =>
      (tableRest? (value? depth) (rest.length + 1) .empty rest).map fun (found, rest) =>
        (.table (found.namesBelow []), rest)
  | _, cs => plainValue? cs

/-- Lists and tables nest so deep at most. -/
def deepest : Nat := 80

end QuorumList.Settings.File
