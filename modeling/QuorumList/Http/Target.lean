/-!
The target of a request.

A target is a path, perhaps with a query and a fragment behind it, or an absolute address: scheme,
authority and then such a path.  An authority alone names no path, and a lone asterisk is a path of
its own.  Only the path says what is asked for, but each part has to be made of the characters that
may stand in it; the first fault decides.
-/
namespace QuorumList.Http

/-- Why a target cannot be read. -/
inductive TargetFault where
  | empty
  | tooLong
  | schemeTooLong
  | badCharacter
  | badAuthority
  | badFormat
deriving DecidableEq, Repr

namespace TargetFault

/-- The text of the fault. -/
def message : TargetFault → String
  | .empty => "empty string"
  | .tooLong => "uri too long"
  | .schemeTooLong => "scheme too long"
  | .badCharacter => "invalid uri character"
  | .badAuthority => "invalid authority"
  | .badFormat => "invalid format"

end TargetFault

namespace Target

/-- The characters of a path. -/
def isPathChar (c : Char) : Bool :=
  '!' ≤ c && c ∉ ['#', '<', '>', '?', '\x60', '\x7f']

/-- The characters of a query. -/
def isQueryChar (c : Char) : Bool :=
  '!' ≤ c && c ∉ ['"', '#', '<', '>', '\x7f']

/-- The path stops here. -/
def endsPath (c : Char) : Bool :=
  c = '?' || c = '#'

/-- The query behind a path stands there as it should; a fragment may hold anything. -/
def isBehindPath : List Char → Bool
  | '?' :: query => (query.takeWhile (· ≠ '#')).all isQueryChar
  | _ => true

/-- The path at the front of a text that ends with it, or with a query or a fragment.  Nothing at
all is the root. -/
def path (cs : List Char) : Except TargetFault (List Char) :=
  let path := cs.takeWhile fun c => !endsPath c
  if path.all isPathChar && isBehindPath (cs.dropWhile fun c => !endsPath c) then
    .ok (if path.isEmpty then ['/'] else path)
  else .error .badCharacter

/-! ### Authorities -/

/-- The authority stops here. -/
def endsAuthority (c : Char) : Bool :=
  c = '/' || endsPath c

/-- The characters of an authority that mean nothing to its form. -/
def isAuthorityChar (c : Char) : Bool :=
  c.isAlphanum ||
    c ∈ ['!', '$', '&', '\x27', '(', ')', '*', '+', ',', '-', '.', ';', '=', '_', '~']

/-- What has been seen of an authority. -/
structure Seen where
  /-- Colons behind the user and outside of brackets. -/
  colons : Nat
  opened : Bool
  closed : Bool
  /-- A percent sign behind the user and outside of brackets. -/
  percent : Bool
  /-- The last character closes the part of the user. -/
  userEnd : Bool
deriving DecidableEq, Repr

/-- Nothing has been seen. -/
def Seen.nothing : Seen :=
  { colons := 0, opened := false, closed := false, percent := false, userEnd := false }

/-- The most colons in a row of groups. -/
def mostColons : Nat := 8

/-- One character of an authority more. -/
def Seen.add (seen : Seen) (c : Char) : Except TargetFault Seen :=
  let seen := { seen with userEnd := false }
  match c with
  | ':' =>
      if mostColons ≤ seen.colons then .error .badAuthority
      else .ok { seen with colons := seen.colons + 1 }
  | '[' =>
      if seen.percent || seen.opened then .error .badAuthority else .ok { seen with opened := true }
  | ']' =>
      if !seen.opened || seen.closed then .error .badAuthority
      else .ok { seen with closed := true, colons := 0, percent := false }
  | '@' => .ok { seen with colons := 0, percent := false, userEnd := true }
  | '%' => .ok { seen with percent := true }
  | c => if isAuthorityChar c then .ok seen else .error .badCharacter

/-- Check an authority: brackets in pairs, at most one colon behind them, a host behind the user. -/
def checkAuthority (cs : List Char) : Except TargetFault Unit := do
  let seen ← cs.foldlM Seen.add .nothing
  if seen.opened != seen.closed || 1 < seen.colons || seen.userEnd || seen.percent then
    throw .badAuthority

/-! ### Whole targets -/

/-- The characters of a scheme. -/
def isSchemeChar (c : Char) : Bool :=
  c.isAlphanum || c ∈ ['+', '-', '.', '~']

/-- The most characters of a scheme. -/
def longestScheme : Nat := 64

/-- The most bytes of a target. -/
def longest : Nat := 65534

/-- The text behind a scheme and the marks that follow it, if it starts with those. -/
def behindScheme? (cs : List Char) : Except TargetFault (Option (List Char)) :=
  let scheme := cs.takeWhile isSchemeChar
  match cs.dropWhile isSchemeChar with
  | ':' :: '/' :: '/' :: rest =>
      if cs.length ≤ 3 then .ok none
      else if longestScheme < scheme.length then .error .schemeTooLong
      else .ok (some rest)
  | _ => .ok none

/-- The path of a target that does not start with it; an authority alone has none, and behind a
scheme there is something. -/
def pathOfAddress (cs : List Char) : Except TargetFault (List Char) := do
  let address ← behindScheme? cs
  let rest := address.getD cs
  if rest.isEmpty then throw .empty
  let authority := rest.takeWhile fun c => !endsAuthority c
  let behind := rest.dropWhile fun c => !endsAuthority c
  checkAuthority authority
  if address.isSome then
    if authority.isEmpty then throw .badFormat
    path behind
  else if !behind.isEmpty then throw (if cs.length = 1 then .badCharacter else .badFormat)
  else pure []

/-- The path that a target names. -/
def pathOf (target : String) : Except TargetFault (List Char) :=
  if longest < target.utf8ByteSize then .error .tooLong
  else
    match target.toList with
    | [] => .error .empty
    | ['*'] => .ok ['*']
    | '/' :: rest => path ('/' :: rest)
    | cs => pathOfAddress cs

end Target

end QuorumList.Http
