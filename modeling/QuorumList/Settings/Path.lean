import QuorumList.Json.Numeral

/-!
Paths to parts of values.

A path starts with a key and goes on with steps: `.part` enters a part by its name and `[3]` an item
by its place, which may be negative and may have blanks around it.  Whoever sets a part of a value
makes the whole value one that has parts.
-/
namespace QuorumList.Settings.Path

/-- The characters of keys and of the names of parts. -/
def isNameChar (c : Char) : Bool :=
  c.isAlphanum || c = '_' || c = '-'

/-- Where the reader of steps is. -/
inductive Position where
  /-- Behind a key or a closed bracket. -/
  | between
  /-- In the name of a part; the flag says that the name has begun. -/
  | name (begun : Bool)
  /-- Behind an opening bracket, in front of the place. -/
  | opened
  /-- In the digits of a place; the number is that of the digits read, if there are any. -/
  | place (negative : Bool) (read : Option Nat)
  /-- Behind a place, in front of the closing bracket. -/
  | placed
deriving DecidableEq, Repr

/-- A place fits into 64 bits with its sign. -/
def isPlace (negative : Bool) (n : Nat) : Bool :=
  if negative then n ≤ Json.maxSigned + 1 else n ≤ Json.maxSigned

/-- A step starts here. -/
def Position.start? : Char → Option Position
  | '.' => some (.name false)
  | '[' => some .opened
  | _ => none

/-- The place ends here. -/
def Position.finish? : Char → Option Position
  | ' ' => some .placed
  | '\t' => some .placed
  | ']' => some .between
  | _ => none

/-- One character further; `none` where it cannot stand. -/
def Position.next : Position → Char → Option Position
  | .between, c => start? c
  | .name begun, c =>
      if isNameChar c then some (.name true)
      else if begun then start? c
      else none
  | .opened, c =>
      if c = ' ' ∨ c = '\t' then some .opened
      else if c = '-' then some (.place true none)
      else if c.isDigit then some (.place false (some (Json.Numeral.digit c)))
      else none
  | .place negative none, c =>
      if c.isDigit then some (.place negative (some (Json.Numeral.digit c))) else none
  | .place negative (some n), c =>
      if c.isDigit then some (.place negative (some (n * 10 + Json.Numeral.digit c)))
      else if isPlace negative n then finish? c
      else none
  | .placed, c => finish? c

/-- Steps may end here. -/
def Position.isEnd : Position → Bool
  | .between => true
  | .name begun => begun
  | _ => false

/-- The text is a list of steps. -/
def areSteps (cs : List Char) : Bool :=
  match cs.foldlM Position.next .between with
  | some position => position.isEnd
  | none => false

/-- The first step of a path. -/
inductive Step where
  | part (name : String)
  | item
deriving DecidableEq, Repr

/-- The step at the front of a list of steps. -/
def firstStep (steps : List Char) : Step :=
  match steps with
  | '.' :: rest => .part (String.ofList (rest.takeWhile isNameChar))
  | _ => .item

/-- The key at which a path starts, and its first step; a text that is no path with steps leads
nowhere. -/
def split? (cs : List Char) : Option (List Char × Step) :=
  let key := cs.takeWhile isNameChar
  let steps := cs.dropWhile isNameChar
  if key ≠ [] ∧ steps ≠ [] ∧ areSteps steps then some (key, firstStep steps) else none

end QuorumList.Settings.Path
