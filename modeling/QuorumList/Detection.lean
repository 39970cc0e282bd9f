import QuorumList.Cluster
import QuorumList.NodeSet
import QuorumList.Call

/-!
Failure detection: turning silence and lack of progress into suspicion.

Every message of the detector is a token of its sender.  A token resets the beat of its sender and
ages every other process; the processes whose beat stays below the threshold are responsive.  Tokens
of the primary also tell whether the requests that were pending at an earlier token have moved on.
A process suspects a primary that is unresponsive or has made no progress for more tokens than the
threshold, and keeps suspecting it until the view changes or service is lost.
-/
namespace QuorumList

/-- The message of a detector: the primary it tracks, and whether it suspects it. -/
structure Suspicion where
  view : View
  suspected : Bool
deriving DecidableEq, Repr, Inhabited

namespace Suspicion

/-- A suspicion as a JSON value. -/
def toJson (m : Suspicion) : Json :=
  .object [("prim", m.view.toJson), ("prim_susp", .bool m.suspected)]

/-- A suspicion from a JSON value. -/
def decoder : Json.Decoder Suspicion :=
  .record
    [ .make "prim" .required View.decoder fun v m => { m with view := v },
      .make "prim_susp" .required .bool fun s m => { m with suspected := s } ]
    { view := .tee, suspected := false }

end Suspicion

/-- The state of failure detection. -/
structure Detection where
  /-- For each process, how many tokens of others have come since its last one. -/
  beats : List Nat
  /-- How many tokens of the primary have come since it last made progress. -/
  stalled : Nat
  /-- Whether each process suspects the primary it tracks; our own suspicion at our place. -/
  suspicions : List Bool
  /-- The primary that each process tracks. -/
  tracked : List View
  /-- The requests whose progress is watched. -/
  watched : List ClientRequest
  /-- The processes that counted as responsive at the last token. -/
  responsive : NodeSet
  /-- The primary that this process tracks. -/
  view : View
deriving DecidableEq, Repr

namespace Detection

/-- The detection of a fresh process: everybody is responsive. -/
def new (site : Site) : Detection :=
  { beats := List.replicate site.cluster.size 0
    stalled := 0
    suspicions := List.replicate site.cluster.size false
    tracked := List.replicate site.cluster.size .tee
    watched := []
    responsive := .filterBelow site.cluster.size fun _ => true
    view := .tee }

/-- Whether a process suspects the primary it tracks, as last reported. -/
def suspects (s : Detection) (k : NodeId) : Bool :=
  s.suspicions.getD k false

/-- An adopting quorum suspects the very primary that this process tracks. -/
def suspected (site : Site) (s : Detection) : Bool :=
  !s.view.isTee &&
    site.cluster.adoptQuorum ≤
      site.cluster.nodes.countP fun k => s.suspects k && s.tracked.getD k .tee = s.view

/-! ### Tokens -/

/-- One more token; the largest 64-bit number stays. -/
def nextBeat (beat : Nat) : Nat :=
  min (beat + 1) Json.maxUnsigned

/-- Reset the beat of a token's sender, age all others but this process, and find out who is
responsive. -/
def ageBeats (site : Site) (sender : NodeId) (s : Detection) : Detection :=
  let fresh (k : NodeId) : Bool := k = site.me || k = sender
  let beats := s.beats.mapIdx fun k beat => if fresh k then 0 else nextBeat beat
  { s with
    beats := beats
    responsive :=
      .filterBelow site.cluster.size fun k => fresh k || beats.getD k 0 < site.cluster.threshold }

/-- Forget all suspicion and progress. -/
def clear (s : Detection) : Detection :=
  { s with
    stalled := 0
    suspicions := s.suspicions.map fun _ => false
    watched := [] }

/-- Track the reported view; another view clears the state. -/
def trackView (view : View) (s : Detection) : Detection :=
  if view = s.view then s else { s.clear with view := view }

/-- A token of the primary: if nothing was watched, or a watched request is no longer pending, there
was progress and the pending requests are watched from now on. -/
def checkProgress (pending : List ClientRequest) (s : Detection) : Detection :=
  if s.watched.isEmpty || s.watched.any (fun q => !pending.contains q) then
    { s with stalled := 0, watched := pending }
  else { s with stalled := nextBeat s.stalled }

/-- Suspect a primary that is unresponsive or stalled, and report which primary is tracked. -/
def judge (site : Site) (primary : NodeId) (s : Detection) : Detection :=
  let guilty := !s.responsive.contains primary || site.cluster.threshold < s.stalled
  { s with
    suspicions :=
      if guilty then s.suspicions.set site.me true else s.suspicions
    tracked := s.tracked.set site.me s.view }

/-- A token of `sender` that reports on the primary of a defined view. -/
def followPrimary (site : Site) (answers : Answers) (sender primary : NodeId) (s : Detection) :
    Detection :=
  let s :=
    if primary = site.me then { s with stalled := 0 }
    else if primary = sender then s.checkProgress answers.pending
    else s
  s.judge site primary

/-- Process a token of `sender`. -/
def onToken (site : Site) (answers : Answers) (sender : NodeId) (s : Detection) : Detection :=
  if sender = site.me then { s with beats := s.beats.set site.me 0 }
  else if site.cluster.size ≤ sender then s
  else
    let view := answers.viewOf site.me
    let s := (s.ageBeats site sender).trackView view
    if !answers.serviceAllowed then s.clear
    else
      match view with
      | .tee => s
      | .id primary => s.followPrimary site answers sender primary

/-! ### Messages and calls -/

/-- What a round broadcasts: the own suspicion, or nothing but a sign of life while service is not
allowed.  A round changes no state. -/
def broadcast (site : Site) (answers : Answers) (s : Detection) : Option Suspicion :=
  if site.switches.allowService || answers.serviceAllowed then
    some { view := s.view, suspected := s.suspects site.me }
  else none

/-- Keep the suspicion that another process broadcast. -/
def receive (site : Site) (sender : NodeId) (m : Suspicion) (s : Detection) : Detection :=
  if site.isPeer sender then
    { s with
      tracked := s.tracked.set sender m.view
      suspicions := s.suspicions.set sender m.suspected }
  else s

/-- Answer a call. -/
def call (site : Site) (function : Function) (s : Detection) : Except BadRoute Reply :=
  match function with
  | .suspected => .ok (.flag (s.suspected site))
  | other => .error { component := .detection, function := other }

/-! ### Snapshots -/

/-- The state of detection as it is given. -/
structure Snapshot where
  view : View
  beats : List Nat
  stalled : Nat
  suspicions : List Bool
  watched : List ClientRequest
deriving DecidableEq, Repr, Inhabited

namespace Snapshot

/-- A snapshot as a JSON value. -/
def toJson (s : Snapshot) : Json :=
  .object
    [ ("beat", .list .nat s.beats),
      ("cnt", .nat s.stalled),
      ("cur_check_req", .list ClientRequest.toJson s.watched),
      ("prim", s.view.toJson),
      ("prim_susp", .list .bool s.suspicions) ]

/-- A snapshot from a JSON value; tables that are left out stand for those already held. -/
def decoder : Json.Decoder Snapshot :=
  .record
    [ .make "prim" .optional View.decoder fun v s => { s with view := v },
      .make "beat" .optional (.list .unsigned) fun b s => { s with beats := b },
      .make "cnt" .optional .unsigned fun c s => { s with stalled := c },
      .make "prim_susp" .optional (.list .bool) fun p s => { s with suspicions := p },
      .make "cur_check_req" .optional (.list ClientRequest.decoder) fun w s =>
        { s with watched := w } ]
    { view := .tee, beats := [], stalled := 0, suspicions := [], watched := [] }

end Snapshot

/-- The snapshot of a state. -/
def snapshot (s : Detection) : Snapshot :=
  { view := s.view
    beats := s.beats
    stalled := s.stalled
    suspicions := s.suspicions
    watched := s.watched }

/-- The state as a JSON value: its snapshot and the responsive processes. -/
def toJson (s : Detection) : Json :=
  .object
    [ ("beat", .list .nat s.beats),
      ("cnt", .nat s.stalled),
      ("cur_check_req", .list ClientRequest.toJson s.watched),
      ("fd_set", s.responsive.toJson),
      ("prim", s.view.toJson),
      ("prim_susp", .list .bool s.suspicions) ]

/-- Take over a given state.  Given suspicions are all about the given primary. -/
def inject (site : Site) (s : Detection) (given : Snapshot) : Except SizeMismatch Detection := do
  let n := site.cluster.size
  SizeMismatch.check "beat" given.beats.length n
  SizeMismatch.check "prim_susp" given.suspicions.length n
  pure
    { s with
      view := given.view
      stalled := given.stalled
      beats := replaceUnlessEmpty s.beats given.beats
      suspicions := replaceUnlessEmpty s.suspicions given.suspicions
      tracked :=
        if given.suspicions.isEmpty then s.tracked else s.tracked.map fun _ => given.view
      watched := given.watched }

end Detection

end QuorumList
