/-!
The media type of a request body.

A media type is a type and a subtype with a slash between them, and parameters behind a semicolon.
The part of a subtype behind its last plus sign is its suffix, which names the syntax that the type
builds on.  Case does not matter.
-/
namespace QuorumList.Http

/-- A media type without its parameters, in lower case. -/
structure MediaType where
  type : List Char
  subtype : List Char
  suffix : Option (List Char)
deriving DecidableEq, Repr

namespace MediaType

/-- The characters that names are made of. -/
def isToken (c : Char) : Bool :=
  c.isAlphanum ||
    c ∈ ['!', '#', '$', '%', '&', '\x27', '*', '+', '-', '.', '^', '_', '\x60', '|', '~']

/-- The characters that may stand between quotes, a quote in the middle apart. -/
def isQuotable (c : Char) : Bool :=
  ' ' ≤ c && c < '\x7f'

/-- Where the reader of parameters is. -/
inductive Position where
  /-- In front of a parameter. -/
  | blank
  /-- In the name of a parameter; the flag says that the name has begun. -/
  | name (begun : Bool)
  /-- In a value without quotes; the flag says that the value has begun. -/
  | plain (begun : Bool)
  /-- In a value between quotes; the flag says that the value has begun. -/
  | quoted (begun : Bool)
  /-- Behind a closing quote. -/
  | closed
deriving DecidableEq, Repr

/-- One character further; `none` where it cannot stand. -/
def Position.next : Position → Char → Option Position
  | .blank, c =>
      if c = ' ' then some .blank
      else if isToken c then some (.name true)
      else none
  | .name begun, c =>
      if isToken c then some (.name true)
      else if c = '=' ∧ begun then some (.plain false)
      else none
  | .plain begun, c =>
      if c = '"' ∧ !begun then some (.quoted false)
      else if isToken c then some (.plain true)
      else if c = ';' ∧ begun then some .blank
      else none
  | .quoted begun, c =>
      if c = '"' ∧ begun then some .closed
      else if isQuotable c then some (.quoted true)
      else none
  | .closed, c =>
      if c = ';' then some .blank
      else if c = ' ' then some .closed
      else none

/-- Parameters may end here. -/
def Position.isEnd : Position → Bool
  | .blank => true
  | .plain _ => true
  | .closed => true
  | _ => false

/-- The text is a list of parameters. -/
def areParameters (cs : List Char) : Bool :=
  match cs.foldlM Position.next .blank with
  | some position => position.isEnd
  | none => false

/-- Split a subtype at its last plus sign; one in front is part of the name. -/
def splitSuffix (name : List Char) : List Char × Option (List Char) :=
  let suffix := (name.reverse.takeWhile (· ≠ '+')).reverse
  let rest := name.take (name.length - suffix.length - 1)
  if suffix.length < name.length ∧ rest ≠ [] then (rest, some suffix) else (name, none)

/-- Read a media type. -/
def ofChars? (cs : List Char) : Option MediaType :=
  let type := cs.takeWhile isToken
  match cs.dropWhile isToken with
  | '/' :: rest =>
      let name := rest.takeWhile isToken
      let valid : Bool :=
        match rest.dropWhile isToken with
        | [] => true
        | c :: parameters => c = ';' && areParameters parameters
      if type ≠ [] ∧ name ≠ [] ∧ valid then
        let (subtype, suffix) := splitSuffix (name.map Char.toLower)
        some { type := type.map Char.toLower, subtype := subtype, suffix := suffix }
      else none
  | _ => none

/-- The body is JSON. -/
def isJson (m : MediaType) : Bool :=
  m.type = "application".toList &&
    (m.subtype = "json".toList || m.suffix = some "json".toList)

end MediaType

end QuorumList.Http
