import QuorumList.Json.Numeral

/-!
Internet addresses as text.

An IPv4 address is four decimal numbers without needless zeros.  An IPv6 address is eight groups of
up to four hexadecimal digits; one run of zero groups may be left out as `::`, and the last two
groups may be written as an IPv4 address.  Each address has one canonical text: groups in lower case
without needless zeros, the first longest run of at least two zero groups left out, and a mapped
IPv4 address in dotted form.
-/
namespace QuorumList.Net

/-- An address of a host. -/
inductive IpAddress where
  | v4 (a b c d : Nat)
  | v6 (groups : List Nat)
deriving DecidableEq, Repr

/-- An address of a socket on a host. -/
structure SocketAddress where
  ip : IpAddress
  port : Nat
deriving DecidableEq, Repr

/-! ### Reading -/

/-- The value of a digit in a radix up to sixteen. -/
def digitIn? (radix : Nat) (c : Char) : Option Nat :=
  let value :=
    if '0' ≤ c ∧ c ≤ '9' then c.toNat - '0'.toNat
    else if 'a' ≤ c ∧ c ≤ 'f' then c.toNat - 'a'.toNat + 10
    else if 'A' ≤ c ∧ c ≤ 'F' then c.toNat - 'A'.toNat + 10
    else radix
  if value < radix then some value else none

/-- The values of the digits at the front of a text, and the text behind them. -/
def spanDigits (radix : Nat) : List Char → List Nat × List Char
  | [] => ([], [])
  | c :: rest =>
      match digitIn? radix c with
      | some d =>
          let (ds, rest) := spanDigits radix rest
          (d :: ds, rest)
      | none => ([], c :: rest)

/-- How a number has to be written. -/
structure NumberShape where
  radix : Nat
  /-- The most digits, if they are bounded. -/
  digits : Option Nat
  /-- A longer number may start with a zero. -/
  leadingZero : Bool
  largest : Nat

/-- Read a number of a given shape, taking all digits that stand there. -/
def readNumber? (shape : NumberShape) (cs : List Char) : Option (Nat × List Char) :=
  let (ds, rest) := spanDigits shape.radix cs
  let value := ds.foldl (fun n d => n * shape.radix + d) 0
  let tooMany :=
    match shape.digits with
    | some most => decide (most < ds.length)
    | none => false
  if ds.isEmpty || tooMany || (!shape.leadingZero && 1 < ds.length && ds.head? = some 0) ||
      shape.largest < value then
    none
  else some (value, rest)

/-- A number of an IPv4 address. -/
def octet : NumberShape :=
  { radix := 10, digits := some 3, leadingZero := false, largest := 255 }

/-- A group of an IPv6 address. -/
def hexGroup : NumberShape :=
  { radix := 16, digits := some 4, leadingZero := true, largest := 65535 }

/-- The port behind an address. -/
def portNumber : NumberShape :=
  { radix := 10, digits := none, leadingZero := true, largest := 65535 }

/-- Read one given character. -/
def expect? (c : Char) : List Char → Option (List Char)
  | d :: rest => if d = c then some rest else none
  | [] => none

/-- Read the four numbers of an IPv4 address. -/
def readV4? (cs : List Char) : Option ((Nat × Nat × Nat × Nat) × List Char) := do
  let (a, cs) ← readNumber? octet cs
  let cs ← expect? '.' cs
  let (b, cs) ← readNumber? octet cs
  let cs ← expect? '.' cs
  let (c, cs) ← readNumber? octet cs
  let cs ← expect? '.' cs
  let (d, cs) ← readNumber? octet cs
  pure ((a, b, c, d), cs)

/-- Groups as read: their values, whether an IPv4 address ended them, and the text behind them. -/
structure Groups where
  values : List Nat
  endsInV4 : Bool
  rest : List Char

/-- Read up to `most` groups with a colon between them.  An IPv4 address stands for two groups and
ends them; it needs room for both. -/
def readGroups : (most : Nat) → (first : Bool) → List Char → Groups
  | 0, _, cs => { values := [], endsInV4 := false, rest := cs }
  | most + 1, first, cs =>
      let none' : Groups := { values := [], endsInV4 := false, rest := cs }
      match if first then some cs else expect? ':' cs with
      | none => none'
      | some body =>
          match if most = 0 then none else readV4? body with
          | some ((a, b, c, d), rest) =>
              { values := [a * 256 + b, c * 256 + d], endsInV4 := true, rest := rest }
          | none =>
              match readNumber? hexGroup body with
              | none => none'
              | some (value, rest) =>
                  let others := readGroups most false rest
                  { others with values := value :: others.values }

/-- Read the groups of an IPv6 address.  The part left out by `::` holds at least one group, and no
IPv4 address stands before it. -/
def readV6? (cs : List Char) : Option (List Nat × List Char) :=
  let head := readGroups 8 true cs
  if head.values.length = 8 then some (head.values, head.rest)
  else if head.endsInV4 then none
  else do
    let cs ← expect? ':' head.rest
    let cs ← expect? ':' cs
    let tail := readGroups (7 - head.values.length) true cs
    let zeros := List.replicate (8 - head.values.length - tail.values.length) 0
    pure (head.values ++ zeros ++ tail.values, tail.rest)

namespace IpAddress

/-- Read a whole text as an address.  A text that starts like an IPv4 address is no IPv6 address. -/
def ofChars? (cs : List Char) : Option IpAddress :=
  match readV4? cs with
  | some ((a, b, c, d), rest) => if rest.isEmpty then some (.v4 a b c d) else none
  | none =>
      match readV6? cs with
      | some (groups, rest) => if rest.isEmpty then some (.v6 groups) else none
      | none => none

/-! ### Writing -/

/-- The dotted text of an IPv4 address. -/
def dotted (a b c d : Nat) : String :=
  s!"{a}.{b}.{c}.{d}"

/-- Groups in hexadecimal, a colon between them. -/
def colons (groups : List Nat) : String :=
  ":".intercalate (groups.map fun g => String.ofList (Nat.toDigits 16 g))

/-- A run of zero groups: where it starts and how long it is. -/
structure ZeroRun where
  start : Nat
  length : Nat

/-- The first longest run of zero groups, given the run that ends at this place and the longest one
so far. -/
def longestRun : (place : Nat) → (current longest : ZeroRun) → List Nat → ZeroRun
  | _, _, longest, [] => longest
  | place, current, longest, g :: rest =>
      if g = 0 then
        let current : ZeroRun :=
          { start := if current.length = 0 then place else current.start
            length := current.length + 1 }
        longestRun (place + 1) current
          (if longest.length < current.length then current else longest) rest
      else longestRun (place + 1) { start := 0, length := 0 } longest rest

/-- The canonical text of IPv6 groups. -/
def renderGroups (groups : List Nat) : String :=
  match groups with
  | [0, 0, 0, 0, 0, 0xFFFF, x, y] =>
      "::ffff:" ++ dotted (x / 256) (x % 256) (y / 256) (y % 256)
  | _ =>
      let run := longestRun 0 { start := 0, length := 0 } { start := 0, length := 0 } groups
      if 1 < run.length then
        colons (groups.take run.start) ++ "::" ++ colons (groups.drop (run.start + run.length))
      else colons groups

/-- The canonical text of an address. -/
def render : IpAddress → String
  | .v4 a b c d => dotted a b c d
  | .v6 groups => renderGroups groups

end IpAddress

namespace SocketAddress

/-- The text of a socket address: an IPv6 address stands in brackets. -/
def render (a : SocketAddress) : String :=
  match a.ip with
  | .v4 .. => s!"{a.ip.render}:{a.port}"
  | .v6 _ => s!"[{a.ip.render}]:{a.port}"

/-- Read the colon and the port that end a socket address. -/
def readPort? (cs : List Char) : Option Nat := do
  let cs ← expect? ':' cs
  let (port, rest) ← readNumber? portNumber cs
  if rest.isEmpty then some port else none

/-- Read a whole text as a socket address. -/
def ofChars? (cs : List Char) : Option SocketAddress :=
  match readV4? cs with
  | some ((a, b, c, d), rest) =>
      (readPort? rest).map fun port => { ip := .v4 a b c d, port := port }
  | none => do
      let cs ← expect? '[' cs
      let (groups, rest) ← readV6? cs
      let rest ← expect? ']' rest
      let port ← readPort? rest
      pure { ip := .v6 groups, port := port }

end SocketAddress

end QuorumList.Net
