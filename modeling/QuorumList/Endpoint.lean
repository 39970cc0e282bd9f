import QuorumList.Link.Inbound
import QuorumList.Link.Links
import QuorumList.Link.Route

/-!
A process on the network.

All links of a process end in one socket.  A datagram counts for the process at the address it came
from, and one from an unknown address is dropped.  Every data frame is acknowledged first, and its
payload is then delivered if its token is accepted.  A frame whose acknowledgement cannot be sent is
not accepted, so it can come again.
-/
namespace QuorumList

/-- A process on the network: its components, its links and where everyone is. -/
structure Endpoint where
  node : Node
  hosts : Net.Hosts
  links : Links
  inbound : Link.Inbound
deriving Repr

namespace Endpoint

/-- A process that has received nothing. -/
def new (node : Node) (hosts : Net.Hosts) (links : Links) : Endpoint :=
  { node := node
    hosts := hosts
    links := links
    inbound := .new node.site.cluster.size }

/-- Deliver a payload that a process sent; the process counts what it cannot use. -/
def deliver (sender : NodeId) (payload : String) (endpoint : Endpoint) : Endpoint :=
  { endpoint with node := (endpoint.node.onMessage sender (.ofString payload)).1 }

/-- Handle a frame from a process; the result says what is sent back. -/
def handle (route : Link.Route) (sender : NodeId) (frame : Link.Frame) (endpoint : Endpoint) :
    Endpoint × Option Link.Frame :=
  match frame with
  | .data token payload =>
      match route with
      | .unreachable => (endpoint, none)
      | .reachable =>
          let (accepted, inbound) := endpoint.inbound.accept sender token
          let endpoint := { endpoint with inbound := inbound }
          (if accepted then endpoint.deliver sender payload else endpoint, some (.ack token))
  | .ack token => ({ endpoint with links := endpoint.links.acknowledge sender token }, none)

/-- Handle a datagram from an address; the result says what is sent back. -/
def receive (route : Link.Route) (address : Net.SocketAddress) (datagram : Text)
    (endpoint : Endpoint) : Endpoint × Option Link.Frame :=
  match endpoint.hosts.nodeAt? address, Link.Frame.decode? datagram with
  | some sender, some frame => endpoint.handle route sender frame
  | _, _ => (endpoint, none)

end Endpoint

end QuorumList
