import QuorumList.View
import QuorumList.Net.Address

/-!
The hosts file: who belongs to a cluster, and where.

Each line names one process: number, host name, address and port, with commas between them.  Blank
lines and lines that start with `#` say nothing; white space around lines and fields is dropped.  A
process is named once.  The first fault of the first faulty line is reported.
-/
namespace QuorumList.Net

/-- White space as Unicode defines it. -/
def isWhiteSpace (c : Char) : Bool :=
  let n := c.toNat
  (0x09 ≤ n && n ≤ 0x0D) || n = 0x20 || n = 0x85 || n = 0xA0 || n = 0x1680 ||
    (0x2000 ≤ n && n ≤ 0x200A) || n = 0x2028 || n = 0x2029 || n = 0x202F || n = 0x205F ||
    n = 0x3000

/-- The text without white space at either end. -/
def trimmed (cs : List Char) : List Char :=
  ((cs.dropWhile isWhiteSpace).reverse.dropWhile isWhiteSpace).reverse

/-- The parts of a text between separators; there is always one. -/
def splitAtEach (separator : Char) : List Char → List (List Char)
  | [] => [[]]
  | c :: rest =>
      match splitAtEach separator rest with
      | [] => [[c]]
      | part :: parts => if c = separator then [] :: part :: parts else (c :: part) :: parts

/-- A decimal number up to `largest`, perhaps behind a plus sign. -/
def unsigned? (largest : Nat) (cs : List Char) : Option Nat :=
  let ds := match cs with
    | '+' :: rest => rest
    | cs => cs
  let value := Json.Numeral.accumulate 0 ds
  if ds ≠ [] ∧ ds.all Char.isDigit ∧ value ≤ largest then some value else none

/-- One line of the hosts file. -/
structure Host where
  node : NodeId
  name : String
  ip : IpAddress
  port : Nat
deriving DecidableEq, Repr

namespace Host

/-- Where the process receives datagrams. -/
def address (h : Host) : SocketAddress :=
  { ip := h.ip, port := h.port }

end Host

/-- What is wrong with a line of the hosts file. -/
inductive HostFault where
  | fieldCount (found : Nat)
  | badId (field : String)
  | badIp (field : String)
  | badPort (field : String)
  | duplicateId (node : NodeId)
deriving DecidableEq, Repr

namespace HostFault

/-- The text of the fault. -/
def message : HostFault → String
  | .fieldCount found => s!"expected 4 fields, found {found}"
  | .badId field => s!"bad id '{field}'"
  | .badIp field => s!"bad ip '{field}'"
  | .badPort field => s!"bad port '{field}'"
  | .duplicateId node => s!"duplicate id {node}"

end HostFault

/-- A fault of the hosts file and the line that has it, counted from one. -/
structure HostsError where
  line : Nat
  fault : HostFault
deriving DecidableEq, Repr

namespace HostsError

/-- The text of the error. -/
def message (e : HostsError) : String :=
  s!"Malformed hosts file line {e.line}: {e.fault.message}"

end HostsError

/-- The processes of a cluster and their addresses, in the order of the processes. -/
structure Hosts where
  entries : List Host
deriving DecidableEq, Repr

namespace Hosts

/-- Read the fields of a line. -/
def readFields (fields : List (List Char)) : Except HostFault Host :=
  match fields with
  | [id, name, ip, port] =>
      match unsigned? Json.maxUnsigned id with
      | none => .error (.badId (String.ofList id))
      | some node =>
          match IpAddress.ofChars? ip with
          | none => .error (.badIp (String.ofList ip))
          | some address =>
              match unsigned? 65535 port with
              | none => .error (.badPort (String.ofList port))
              | some number =>
                  .ok { node := node, name := String.ofList name, ip := address, port := number }
  | fields => .error (.fieldCount fields.length)

/-- Read a trimmed line behind the entries of earlier lines. -/
def readLine (line : List Char) (entries : List Host) : Except HostFault (List Host) :=
  if line.isEmpty || line.head? = some '#' then .ok entries
  else do
    let host ← readFields ((splitAtEach ',' line).map trimmed)
    if entries.any (fun e => e.node = host.node) then throw (.duplicateId host.node)
    pure (entries ++ [host])

/-- Read lines from a given line number on. -/
def readLines : Nat → List (List Char) → List Host → Except HostsError (List Host)
  | _, [], entries => .ok entries
  | number, line :: rest, entries =>
      match readLine (trimmed line) entries with
      | .ok entries => readLines (number + 1) rest entries
      | .error fault => .error { line := number, fault := fault }

/-- Read a hosts file. -/
def parse (content : String) : Except HostsError Hosts := do
  let entries ← readLines 1 (splitAtEach '\n' content.toList) []
  pure { entries := entries.mergeSort fun a b => a.node ≤ b.node }

/-- The entry of a process. -/
def get? (hosts : Hosts) (node : NodeId) : Option Host :=
  hosts.entries.find? fun e => e.node = node

/-- The address of a process. -/
def address? (hosts : Hosts) (node : NodeId) : Option SocketAddress :=
  (hosts.get? node).map Host.address

/-- The first process at an address. -/
def nodeAt? (hosts : Hosts) (address : SocketAddress) : Option NodeId :=
  (hosts.entries.find? fun e => e.address = address).map Host.node

/-- The first of `count` processes from `next` on that has no entry. -/
def missingFrom? (hosts : Hosts) : (count : Nat) → (next : NodeId) → Option NodeId
  | 0, _ => none
  | count + 1, next =>
      if (hosts.get? next).isNone then some next else hosts.missingFrom? count (next + 1)

theorem missingFrom?_eq_find? (hosts : Hosts) (count : Nat) (next : NodeId) :
    hosts.missingFrom? count next =
      (List.range' next count).find? fun k => (hosts.get? k).isNone := by
  induction count generalizing next with
  | zero => rfl
  | succ count further =>
      rw [missingFrom?, List.range'_succ, List.find?_cons, further]
      cases (hosts.get? next).isNone <;> rfl

/-- The first of `n` processes that has no entry. -/
def missing? (hosts : Hosts) (n : Nat) : Option NodeId :=
  hosts.missingFrom? n 0

end Hosts

end QuorumList.Net
