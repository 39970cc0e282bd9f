import QuorumList.Cluster

/-!
The settings of a single process.

Every setting has a default, so a source of settings names only those that differ.  The settings fix
the parameters of the cluster and the switches of the process; a misbehaviour only counts when
misbehaving has been turned on, too.
-/
namespace QuorumList

/-- The settings of a process. -/
structure Settings where
  /-- Which process of the cluster this is. -/
  id : NodeId
  /-- The HTTP port of process 0; the others follow. -/
  apiPort : Nat
  hostsPath : String
  size : Nat
  faults : Nat
  /-- Milliseconds between two rounds. -/
  runSleep : Option Nat
  /-- The process runs in a test cluster, where rounds follow faster. -/
  integrationTest : Bool
  forceView : Option Nat
  allowService : Bool
  forceNoViewChange : Bool
  /-- Misbehaving is turned on. -/
  byzantine : Bool
  misbehaviour : Option Misbehaviour
  nonSelfStab : Bool
  sigma : Nat
  clients : Nat
  threshold : Nat
  /-- How many frames wait on each link. -/
  queueSize : Nat
  maxSeq : Nat
  startState : Option String
  /-- Milliseconds until an unacknowledged frame is sent again. -/
  resendInterval : Nat
deriving DecidableEq, Repr

namespace Settings

/-- The settings that hold when nothing is set. -/
def standard : Settings :=
  { id := 0
    apiPort := 4000
    hostsPath := "hosts.txt"
    size := 6
    faults := 1
    runSleep := none
    integrationTest := false
    forceView := none
    allowService := false
    forceNoViewChange := false
    byzantine := false
    misbehaviour := none
    nonSelfStab := false
    sigma := 1
    clients := 1
    threshold := 10
    queueSize := 64
    maxSeq := Cluster.defaultMaxSeq
    startState := none
    resendInterval := 20 }

instance : Inhabited Settings :=
  ⟨standard⟩

/-! ### What follows from the settings -/

/-- The largest number of a port. -/
def maxPort : Nat :=
  0xffff

/-- The HTTP port of the process: the number of the process, cut to 16 bits, behind the port of
process 0, and the last port at most. -/
def httpPort (s : Settings) : Nat :=
  min (s.apiPort + s.id % (maxPort + 1)) maxPort

/-- Milliseconds between two rounds. -/
def roundSleep (s : Settings) : Nat :=
  s.runSleep.getD (if s.integrationTest then 10 else 50)

/-- Milliseconds until an unacknowledged frame is sent again, at least one. -/
def resendAfter (s : Settings) : Nat :=
  max s.resendInterval 1

/-- The view that the process is made to report. -/
def forcedView (s : Settings) : Option View :=
  s.forceView.map View.id

/-- The misbehaviour that is in force. -/
def activeMisbehaviour (s : Settings) : Option Misbehaviour :=
  if s.byzantine then s.misbehaviour else none

/-- The parameters of the cluster. -/
def cluster (s : Settings) : Cluster :=
  Cluster.new s.size s.faults
    |>.withSigma s.sigma
    |>.withClients s.clients
    |>.withThreshold s.threshold
    |>.withMaxSeq s.maxSeq

/-- The switches of the process. -/
def switches (s : Settings) : Switches :=
  { forceView := s.forcedView
    allowService := s.allowService
    forceNoViewChange := s.forceNoViewChange
    nonSelfStab := s.nonSelfStab
    misbehaviour := s.activeMisbehaviour }

/-- The process within its cluster. -/
def site (s : Settings) : Site :=
  { me := s.id
    cluster := s.cluster
    switches := s.switches }

end Settings

/-! ### Settings that cannot be used -/

/-- Why settings cannot be used. -/
inductive InvalidSettings where
  | emptyCluster
  | idOutside (id size : Nat)
  | tooManyFaults (size faults : Nat)
  | forcedViewOutside (view size : Nat)
  | misbehaviourMissing
  | notPositive
  /-- The hosts file does not name a process of the cluster. -/
  | hostMissing (node : NodeId)
deriving DecidableEq, Repr

namespace InvalidSettings

/-- What is wrong. -/
def reason : InvalidSettings → String
  | .emptyCluster => "NUMBER_OF_NODES must be >= 1"
  | .idOutside id size => s!"ID {id} is outside [0, {size})"
  | .tooManyFaults size faults => s!"{size} nodes cannot tolerate {faults} Byzantine nodes"
  | .forcedViewOutside view size => s!"FORCE_VIEW {view} is outside [0, {size})"
  | .misbehaviourMissing => "BYZANTINE is set but BYZANTINE_BEHAVIOR is missing"
  | .notPositive => "SIGMA, NUMBER_OF_CLIENTS and MAX_QUEUE_SIZE must be positive"
  | .hostMissing node => s!"hosts file has no entry for node {node}"

/-- The text of the error. -/
def message (e : InvalidSettings) : String :=
  s!"Invalid configuration: {e.reason}"

end InvalidSettings

namespace Settings

/-- Check how the settings fit together; the first fault decides. -/
def validate (s : Settings) : Except InvalidSettings Unit := do
  if s.size = 0 then throw .emptyCluster
  if s.size ≤ s.id then throw (.idOutside s.id s.size)
  if s.size ≤ 3 * s.faults then throw (.tooManyFaults s.size s.faults)
  match s.forceView with
  | some view => if s.size ≤ view then throw (.forcedViewOutside view s.size)
  | none => pure ()
  if s.byzantine && s.misbehaviour.isNone then throw .misbehaviourMissing
  if s.sigma = 0 ∨ s.clients = 0 ∨ s.queueSize = 0 then throw .notPositive

end Settings

end QuorumList
