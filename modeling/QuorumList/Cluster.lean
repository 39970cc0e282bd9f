import QuorumList.View

/-!
The static parameters of a cluster and the switches of a single process.

All quorums derive from the number `faults` of processes that may misbehave: a weak quorum of
`2F + 1` holds a majority of correct reporters, an adopting quorum of `3F + 1` makes a history or a
vote count, and an establishing quorum of `4F + 1` is what view changes and witnesses need.
-/
namespace QuorumList

/-- The static parameters that all processes of a cluster share. -/
structure Cluster where
  size : Nat
  faults : Nat
  sigma : Nat
  clients : Nat
  threshold : Nat
  maxSeq : Nat
deriving DecidableEq, Repr, Inhabited

namespace Cluster

/-- Sequence numbers stay below this unless something else is set. -/
def defaultMaxSeq : Nat :=
  0x7fffffff

/-- The parameters of a cluster of a given size, all others at their defaults. -/
def new (size faults : Nat) : Cluster :=
  { size := size
    faults := faults
    sigma := 1
    clients := 1
    threshold := 10
    maxSeq := defaultMaxSeq }

/-- Set the window multiplier, which is at least one. -/
def withSigma (sigma : Nat) (c : Cluster) : Cluster :=
  { c with sigma := max sigma 1 }

/-- Set the number of clients, which is at least one. -/
def withClients (clients : Nat) (c : Cluster) : Cluster :=
  { c with clients := max clients 1 }

/-- Set the number of tokens from others after which a silent process counts as unresponsive. -/
def withThreshold (threshold : Nat) (c : Cluster) : Cluster :=
  { c with threshold := threshold }

/-- Set the bound of sequence numbers. -/
def withMaxSeq (maxSeq : Nat) (c : Cluster) : Cluster :=
  { c with maxSeq := maxSeq }

/-- The processes of the cluster, in order. -/
def nodes (c : Cluster) : List NodeId :=
  List.range c.size

/-- More than two thirds of these reporters may be counted on to hold a correct majority. -/
def weakQuorum (c : Cluster) : Nat :=
  2 * c.faults + 1

/-- So many processes make a vote or a history count. -/
def adoptQuorum (c : Cluster) : Nat :=
  3 * c.faults + 1

/-- So many processes change or establish a view. -/
def establishQuorum (c : Cluster) : Nat :=
  4 * c.faults + 1

/-- How many requests a replica keeps pending. -/
def pendingCapacity (c : Cluster) : Nat :=
  c.sigma * c.clients

/-- How many executed requests a replica keeps in its log, and how far sequence numbers may run
ahead of execution. -/
def logCapacity (c : Cluster) : Nat :=
  3 * c.sigma * c.clients

/-- Sequence numbers from here on are too close to the bound to be used. -/
def seqLimit (c : Cluster) : Nat :=
  c.maxSeq - c.sigma

/-- The parameters come from a size, a number of faults and any settings after that. -/
inductive Configured : Cluster → Prop where
  | new (size faults : Nat) : Configured (.new size faults)
  | withSigma {c : Cluster} (configured : Configured c) (sigma : Nat) :
      Configured (c.withSigma sigma)
  | withClients {c : Cluster} (configured : Configured c) (clients : Nat) :
      Configured (c.withClients clients)
  | withThreshold {c : Cluster} (configured : Configured c) (threshold : Nat) :
      Configured (c.withThreshold threshold)
  | withMaxSeq {c : Cluster} (configured : Configured c) (maxSeq : Nat) :
      Configured (c.withMaxSeq maxSeq)

theorem Configured.sigma_clients_pos {c : Cluster} (configured : Configured c) :
    0 < c.sigma ∧ 0 < c.clients := by
  induction configured with
  | new => simp [Cluster.new]
  | withSigma _ sigma ih => exact ⟨by simp only [Cluster.withSigma]; omega, ih.2⟩
  | withClients _ clients ih => exact ⟨ih.1, by simp only [Cluster.withClients]; omega⟩
  | withThreshold _ _ ih => exact ih
  | withMaxSeq _ _ ih => exact ih

/-- A configured replica keeps some of the requests it has executed. -/
theorem Configured.logCapacity_pos {c : Cluster} (configured : Configured c) :
    0 < c.logCapacity := by
  have ⟨sigma, clients⟩ := configured.sigma_clients_pos
  exact Nat.mul_pos (Nat.mul_pos (by omega) sigma) clients

end Cluster

/-- What a process does wrong on purpose in a test deployment. -/
inductive Misbehaviour where
  /-- It sends nothing. -/
  | unresponsive
  /-- It shows the upper half of the processes the view after its own. -/
  | differentViews
  /-- It keeps announcing the reset pair. -/
  | forcingReset
  /-- As primary it assigns no sequence numbers. -/
  | stopAssigning
  /-- It sends nothing to the lower half of the processes. -/
  | unresponsiveToHalf
deriving DecidableEq, Repr

namespace Misbehaviour

/-- The names of the misbehaviours. -/
def names : List (String × Misbehaviour) :=
  [ ("UNRESPONSIVE", .unresponsive),
    ("DIFFERENT_VIEWS", .differentViews),
    ("FORCING_RESET", .forcingReset),
    ("STOP_ASSIGNING_SEQNUMS", .stopAssigning),
    ("UNRESPONSIVE_TO_HALF", .unresponsiveToHalf) ]

/-- The name of a misbehaviour. -/
def name : Misbehaviour → String
  | .unresponsive => "UNRESPONSIVE"
  | .differentViews => "DIFFERENT_VIEWS"
  | .forcingReset => "FORCING_RESET"
  | .stopAssigning => "STOP_ASSIGNING_SEQNUMS"
  | .unresponsiveToHalf => "UNRESPONSIVE_TO_HALF"

/-- A misbehaviour as a JSON value. -/
def toJson (m : Misbehaviour) : Json :=
  .string m.name

/-- A misbehaviour from a JSON value. -/
def decoder : Json.Decoder Misbehaviour :=
  .named names

/-- The process belongs to the lower half of a cluster of `n`. -/
def inLowerHalf (n : Nat) (node : NodeId) : Bool :=
  node < n / 2

/-- A process with this misbehaviour drops what it should send to a receiver. -/
def drops (n : Nat) (receiver : NodeId) : Option Misbehaviour → Bool
  | some .unresponsive => true
  | some .unresponsiveToHalf => inLowerHalf n receiver
  | _ => false

end Misbehaviour

/-- The switches of one process in a test deployment. -/
structure Switches where
  /-- The process reports this view as its own, whatever has been established. -/
  forceView : Option View
  /-- Service is always allowed. -/
  allowService : Bool
  /-- No view change is ever seen to be under way. -/
  forceNoViewChange : Bool
  /-- Conflicts and corrupt records lead to no flush, and flushes to no reset. -/
  nonSelfStab : Bool
  /-- What the process does wrong. -/
  misbehaviour : Option Misbehaviour
deriving DecidableEq, Repr

namespace Switches

/-- The switches of a correct process. -/
def none : Switches :=
  { forceView := .none
    allowService := false
    forceNoViewChange := false
    nonSelfStab := false
    misbehaviour := .none }

instance : Inhabited Switches :=
  ⟨none⟩

end Switches

/-- One process of a cluster: its position, the parameters and its switches. -/
structure Site where
  me : NodeId
  cluster : Cluster
  switches : Switches
deriving DecidableEq, Repr, Inhabited

namespace Site

/-- The other processes, in order. -/
def others (site : Site) : List NodeId :=
  site.cluster.nodes.filter (· ≠ site.me)

/-- The process is another one of the cluster. -/
def isPeer (site : Site) (node : NodeId) : Bool :=
  node ≠ site.me && node < site.cluster.size

theorem isPeer_iff {site : Site} {node : NodeId} :
    site.isPeer node = true ↔ node ≠ site.me ∧ node < site.cluster.size := by
  simp [isPeer]

end Site

/-- A table of a start state has neither no entry nor one for each process. -/
structure SizeMismatch where
  table : String
  found : Nat
  expected : Nat
deriving DecidableEq, Repr

namespace SizeMismatch

/-- The text of the error. -/
def message (e : SizeMismatch) : String :=
  s!"{e.table} has {e.found} entries, expected {e.expected}"

/-- A table may be left out, and otherwise has `expected` entries. -/
def check (table : String) (found expected : Nat) : Except SizeMismatch Unit :=
  if found = 0 ∨ found = expected then .ok ()
  else .error { table := table, found := found, expected := expected }

end SizeMismatch

/-- The entries of a start-state table, or those held so far if the table is left out. -/
def replaceUnlessEmpty {α : Type} (held given : List α) : List α :=
  if given.isEmpty then held else given

end QuorumList
