import QuorumList.Node.Basic

/-!
Sending what a process has to say.

A message becomes one parcel for each of its receivers.  Nothing is sent to the process itself, and
a misbehaving process drops some parcels.  A carrier takes parcels one by one and refuses those it
has no room for; refused parcels go back to the sender.
-/
namespace QuorumList

/-- A text on its way to a process. -/
structure Parcel where
  receiver : NodeId
  text : String
deriving DecidableEq, Repr

/-- Texts with all their receivers, where the same text goes to several in a row. -/
def Parcel.bundles : List Parcel → List (List NodeId × String)
  | [] => []
  | parcel :: rest =>
      match bundles rest with
      | (receivers, text) :: others =>
          if text = parcel.text then (parcel.receiver :: receivers, text) :: others
          else ([parcel.receiver], parcel.text) :: (receivers, text) :: others
      | [] => [([parcel.receiver], parcel.text)]

/-- A way to carry parcels, with a state of type `τ`: it takes a parcel, or refuses it for lack of
room. -/
structure Carrier (τ : Type) where
  take? : Parcel → τ → Option τ

namespace Carrier

/-- The carrier that keeps parcels in order, up to a capacity if there is one. -/
def store (capacity : Option Nat) : Carrier (List Parcel) :=
  { take? := fun parcel held =>
      match capacity with
      | some c => if c ≤ held.length then none else some (held ++ [parcel])
      | none => some (held ++ [parcel]) }

end Carrier

namespace Node

/-- The parcels of a message. -/
def parcels (node : Node) (message : Message) : List Parcel :=
  let site := node.site
  let receivers :=
    match message.receiver with
    | some receiver => [receiver]
    | none => site.cluster.nodes
  let text := message.encode
  (receivers.filter fun k =>
      k ≠ site.me && !Misbehaviour.drops site.cluster.size k site.switches.misbehaviour).map
    fun k => { receiver := k, text := text }

/-- Hand a parcel to a carrier; the result says whether it was refused. -/
def post {τ : Type} (carrier : Carrier τ) (parcel : Parcel) (node : Node) (state : τ) :
    Node × τ × Bool :=
  match carrier.take? parcel state with
  | some state => (node.count [.messageSent], state, false)
  | none => (node.count [.backpressure], state, true)

/-- Hand parcels to a carrier in order; the result lists those that were refused. -/
def postAll {τ : Type} (carrier : Carrier τ) :
    List Parcel → Node → τ → Node × τ × List Parcel
  | [], node, state => (node, state, [])
  | parcel :: rest, node, state =>
      let (node, state, refused) := node.post carrier parcel state
      let (node, state, pending) := postAll carrier rest node state
      (node, state, if refused then parcel :: pending else pending)

/-- Send messages. -/
def send {τ : Type} (carrier : Carrier τ) (messages : List Message) (node : Node) (state : τ) :
    Node × τ × List Parcel :=
  node.postAll carrier (messages.flatMap node.parcels) state

/-- Run a round of a component and send its messages. -/
def step {τ : Type} (carrier : Carrier τ) (component : Component) (node : Node) (state : τ) :
    Node × τ × List Parcel :=
  let (node, messages) := node.round component
  node.send carrier messages state

end Node

end QuorumList
