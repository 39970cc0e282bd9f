import QuorumList.View

/-!
The receiving side of the links of a process.

A payload is delivered unless its token repeats the one accepted last from the same process, so a
payload that is sent again and again is delivered once.
-/
namespace QuorumList.Link

/-- The tokens accepted last, one entry for each process. -/
structure Inbound where
  last : List (Option Nat)
deriving DecidableEq, Repr

namespace Inbound

/-- Nothing has been accepted from any of `size` processes. -/
def new (size : Nat) : Inbound :=
  { last := List.replicate size none }

/-- Accept a token from a process of the cluster unless it repeats the last one; the flag says
whether it was accepted. -/
def accept (sender : NodeId) (token : Nat) (inbound : Inbound) : Bool × Inbound :=
  match inbound.last[sender]? with
  | none => (false, inbound)
  | some last =>
      if last = some token then (false, inbound)
      else (true, { last := inbound.last.set sender (some token) })

end Inbound

end QuorumList.Link
