import QuorumList.Node.Sending

/-!
A cluster whose processes are joined by wires.

In one round every process runs each of its components once, in the order of the processes, and then
everything that was sent is delivered in the order in which it was sent.  What is sent over a cut
link is lost.
-/
namespace QuorumList

/-- The processes of a cluster, in order, and the links that are cut. -/
structure Network where
  nodes : List Node
  cut : List (NodeId × NodeId)
deriving Repr

/-- A parcel and the process it comes from. -/
structure Delivery where
  sender : NodeId
  parcel : Parcel
deriving DecidableEq, Repr

namespace Network

/-- Replace a process. -/
def setNode (k : NodeId) (node : Node) (network : Network) : Network :=
  { network with nodes := network.nodes.set k node }

/-- Run each component of a process once; the result lists what it sends. -/
def runNode (node : Node) : Node × List Parcel :=
  let (node, parcels) :=
    Component.all.foldl
      (fun (node, parcels) component =>
        let (node, parcels, _) := node.step (.store none) component parcels
        (node, parcels))
      (node, [])
  (node, parcels)

/-- Run all processes; the result lists what they send. -/
def runAll (nodes : List Node) : List Node × List Delivery :=
  let runs := nodes.map runNode
  ( runs.map Prod.fst,
    runs.flatMap fun (node, parcels) =>
      parcels.map fun parcel => { sender := node.site.me, parcel := parcel } )

/-- Hand a text to a process as coming from another one. -/
def deliver (sender receiver : NodeId) (text : Text) (network : Network) :
    Network × Except Node.DeliveryError Unit :=
  match network.nodes[receiver]? with
  | none => (network, .ok ())
  | some node =>
      let (node, result) := node.onMessage sender text
      (network.setNode receiver node, result)

/-- Deliver what was sent, unless its link is cut. -/
def deliverAll (deliveries : List Delivery) (network : Network) : Network :=
  deliveries.foldl
    (fun network d =>
      if (d.sender, d.parcel.receiver) ∈ network.cut then network
      else (network.deliver d.sender d.parcel.receiver (.ofString d.parcel.text)).1)
    network

/-- One round of the cluster. -/
def round (network : Network) : Network :=
  let (nodes, deliveries) := runAll network.nodes
  { network with nodes := nodes }.deliverAll deliveries

/-- Rounds of the cluster, one after the other. -/
def rounds : Nat → Network → Network
  | 0, network => network
  | k + 1, network => rounds k network.round

/-- Buffer a client request at a process. -/
def submit (receiver : NodeId) (q : ClientRequest) (network : Network) :
    Network × Except Node.SubmitError Unit :=
  match network.nodes[receiver]? with
  | none => (network, .ok ())
  | some node =>
      let (node, result) := node.submit q
      (network.setNode receiver node, result)

end Network

end QuorumList
