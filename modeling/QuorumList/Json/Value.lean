/-!
JSON values that are written.

Values hold no fractions, since nothing here writes any.  Rendering is compact: no blank is written,
members are written in the order they have, and only those characters are escaped that a JSON string
cannot hold.  Values that describe states list their keys in alphabetical order.
-/
namespace QuorumList

/-- A JSON value without fractions. -/
inductive Json where
  | null
  | bool (value : Bool)
  | int (value : Int)
  | string (value : String)
  | array (items : List Json)
  | object (members : List (String × Json))
deriving Repr, Inhabited

namespace Json

/-- A natural number as a value. -/
def nat (n : Nat) : Json :=
  .int n

/-- A list of values. -/
def list {α : Type} (f : α → Json) (items : List α) : Json :=
  .array (items.map f)

/-- A value that may be absent. -/
def optional {α : Type} (f : α → Json) : Option α → Json
  | none => .null
  | some a => f a

/-! ### Rendering -/

/-- The lower-case hexadecimal digits of a number below 256, two of them. -/
def hexPair (n : Nat) : List Char :=
  [Nat.digitChar (n / 16 % 16), Nat.digitChar (n % 16)]

/-- A character inside a string: the quote, the backslash and the control characters are escaped. -/
def escape (c : Char) : List Char :=
  if c = '"' then ['\\', '"']
  else if c = '\\' then ['\\', '\\']
  else if c = '\x08' then ['\\', 'b']
  else if c = '\x0c' then ['\\', 'f']
  else if c = '\n' then ['\\', 'n']
  else if c = '\r' then ['\\', 'r']
  else if c = '\t' then ['\\', 't']
  else if c < ' ' then ['\\', 'u', '0', '0'] ++ hexPair c.toNat
  else [c]

/-- A string between quotes. -/
def quoted (s : String) : List Char :=
  '"' :: s.toList.flatMap escape ++ ['"']

/-- The decimal digits of an integer behind its sign. -/
def decimal (i : Int) : List Char :=
  if i < 0 then '-' :: Nat.toDigits 10 i.natAbs else Nat.toDigits 10 i.natAbs

mutual

/-- The characters of a value. -/
def chars : Json → List Char
  | .null => ['n', 'u', 'l', 'l']
  | .bool true => ['t', 'r', 'u', 'e']
  | .bool false => ['f', 'a', 'l', 's', 'e']
  | .int i => decimal i
  | .string s => quoted s
  | .array [] => ['[', ']']
  | .array (item :: rest) => '[' :: (chars item ++ itemChars rest ++ [']'])
  | .object [] => ['\x7b', '\x7d']
  | .object ((key, value) :: rest) =>
      '\x7b' :: (quoted key ++ ':' :: (chars value ++ memberChars rest ++ ['\x7d']))

/-- The characters of further items, a comma before each. -/
def itemChars : List Json → List Char
  | [] => []
  | item :: rest => ',' :: (chars item ++ itemChars rest)

/-- The characters of further members, a comma before each. -/
def memberChars : List (String × Json) → List Char
  | [] => []
  | (key, value) :: rest => ',' :: (quoted key ++ ':' :: (chars value ++ memberChars rest))

end

/-- The compact text of a value. -/
def render (value : Json) : String :=
  String.ofList value.chars

end Json

end QuorumList
