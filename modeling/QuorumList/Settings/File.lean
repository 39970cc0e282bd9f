import QuorumList.Settings.File.Value

/-!
The settings file.

A line gives a value under a key, starts a table by its heading, or says nothing; a comment starts
with `#` and ends with its line.  What follows a heading belongs to its table.  A file with a fault
gives nothing at all.  The file may start with a byte order mark, and so may the text that follows
it.
-/
namespace QuorumList.Settings.File

/-- Where a reader of lines is: what has been given so far, and the table that lines add to. -/
structure Place where
  tables : Tables
  table : List String
deriving DecidableEq, Repr

/-- The start of a file. -/
def Place.start : Place :=
  { tables := .empty, table := [] }

/-- The heading in front of the closing brackets, and the text behind them. -/
def heading? (double : Bool) (cs : List Char) : Option (List String × List Char) := do
  let (names, rest) ← key? cs
  match double, rest with
  | true, ']' :: ']' :: rest => pure (names, rest)
  | false, ']' :: rest => pure (names, rest)
  | _, _ => none

/-- Read one statement, which starts with no blank. -/
def statement? (place : Place) : List Char → Option (Place × List Char)
  | '[' :: '[' :: rest => do
      let (heading, rest) ← heading? true rest
      let tables ← place.tables.append? heading
      pure (⟨tables, heading⟩, rest)
  | '[' :: rest => do
      let (heading, rest) ← heading? false rest
      let tables ← place.tables.head? heading
      pure (⟨tables, heading⟩, rest)
  | cs => do
      let ((key, given), rest) ← assignment? (value? deepest) cs
      let tables ← place.tables.assign? place.table key given
      pure ({ place with tables := tables }, rest)

/-- Read statements, at most so many, each with the end of its line. -/
def statements? : (most : Nat) → Place → List Char → Option Place
  | 0, _, _ => none
  | most + 1, place, cs => do
      match ← skipLines? false cs with
      | [] => pure place
      | cs => do
          let (place, rest) ← statement? place cs
          statements? most place (← lineEnd? rest)

/-- What a settings file gives under its names, unless it is faulty. -/
def entries? (content : String) : Option (List (String × Given)) :=
  let cs := plainLineEnds (skipMark (skipMark content.toList))
  (statements? (cs.length + 1) .start cs).map fun place => place.tables.given

end QuorumList.Settings.File
