import QuorumList.Net.Hosts
import QuorumList.Link.Outbound
import QuorumList.Node.Sending

/-!
All links of a process.

A process has one link to every other process of the cluster, and the hosts file has to say where
each of them is.  What is sent to a process without a link is lost without a sign.
-/
namespace QuorumList

/-- The hosts file does not say where a process is. -/
structure MissingHost where
  node : NodeId
deriving DecidableEq, Repr

/-- The text of the error. -/
def MissingHost.message (e : MissingHost) : String :=
  s!"hosts file has no address for node {e.node}"

/-- A link and where it leads. -/
structure PeerLink where
  peer : NodeId
  address : Net.SocketAddress
  outbound : Link.Outbound
deriving Repr

/-- The links that leave a process, in the order of their peers. -/
structure Links where
  me : NodeId
  peers : List PeerLink
deriving Repr

namespace Links

/-- The link to one peer, if the hosts file names it. -/
def connect (hosts : Net.Hosts) (capacity : Nat) (peer : NodeId) : Except MissingHost PeerLink :=
  match hosts.address? peer with
  | some address => .ok { peer := peer, address := address, outbound := .new capacity }
  | none => .error { node := peer }

/-- The links of `me` to `count` processes from `next` on; the first that is missing ends it. -/
def connectFrom (me : NodeId) (hosts : Net.Hosts) (capacity : Nat) :
    (count : Nat) → (next : NodeId) → Except MissingHost (List PeerLink)
  | 0, _ => .ok []
  | count + 1, next =>
      if next = me then connectFrom me hosts capacity count (next + 1)
      else do
        let link ← connect hosts capacity next
        let others ← connectFrom me hosts capacity count (next + 1)
        pure (link :: others)

theorem connectFrom_eq_mapM (me : NodeId) (hosts : Net.Hosts) (capacity count : Nat)
    (next : NodeId) :
    connectFrom me hosts capacity count next =
      ((List.range' next count).filter (· ≠ me)).mapM (connect hosts capacity) := by
  induction count generalizing next with
  | zero => rfl
  | succ count further =>
      rw [connectFrom, List.range'_succ, List.filter_cons]
      by_cases own : next = me
      · rw [if_pos own, if_neg (by simp only [own, ne_eq, not_true_eq_false, decide_false,
          Bool.false_eq_true, not_false_eq_true]), further]
      · rw [if_neg own, if_pos (by simp only [own, ne_eq, not_false_eq_true, decide_true]),
          List.mapM_cons, further]

/-- The links of `me` in a cluster of `size`, each with a queue of the given capacity. -/
def new (me : NodeId) (hosts : Net.Hosts) (size capacity : Nat) : Except MissingHost Links := do
  let peers ← connectFrom me hosts capacity size 0
  pure { me := me, peers := peers }

/-- The link to a process. -/
def link? (links : Links) (peer : NodeId) : Option Link.Outbound :=
  (links.peers.find? fun p => p.peer = peer).map PeerLink.outbound

/-- Replace the link to a process. -/
def setLink (peer : NodeId) (outbound : Link.Outbound) (links : Links) : Links :=
  { links with
    peers := links.peers.map fun p => if p.peer = peer then { p with outbound := outbound } else p }

/-- How many texts wait on the link to a process. -/
def queued (links : Links) (peer : NodeId) : Nat :=
  match links.link? peer with
  | some outbound => outbound.queue.size
  | none => 0

/-- Put a text into the queue of a link, unless that is full. -/
def offer? (peer : NodeId) (text : Text) (links : Links) : Option Links :=
  match links.link? peer with
  | none => some links
  | some outbound => (outbound.offer? text).map fun outbound => links.setLink peer outbound

/-- Offer texts again that a full queue refused; the result lists those that are refused again. -/
def offerAgain : List (NodeId × Text) → Links → Links × List (NodeId × Text)
  | [], links => (links, [])
  | (peer, text) :: rest, links =>
      match links.offer? peer text with
      | some links => offerAgain rest links
      | none =>
          let (links, refused) := offerAgain rest links
          (links, (peer, text) :: refused)

/-- Remember an acknowledgement that a process sent. -/
def acknowledge (peer : NodeId) (token : Nat) (links : Links) : Links :=
  match links.link? peer with
  | none => links
  | some outbound => links.setLink peer (outbound.acknowledge token)

end Links

/-- The carrier that puts parcels into the queues of links. -/
def Carrier.links : Carrier Links :=
  { take? := fun parcel links => links.offer? parcel.receiver (.ofString parcel.text) }

end QuorumList
