import QuorumList.Link.Frame

/-!
The route that datagrams take out of a host.

A host without a network can send nothing.  A sender does not notice, since it sends again whatever
is not acknowledged.
-/
namespace QuorumList.Link

/-- Whether datagrams leave the host. -/
inductive Route where
  | reachable
  | unreachable
deriving DecidableEq, Repr

namespace Route

/-- The datagrams that leave the host. -/
def carried (route : Route) (frames : List Frame) : List Frame :=
  match route with
  | .reachable => frames
  | .unreachable => []

end Route

end QuorumList.Link
