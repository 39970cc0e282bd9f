import QuorumList.Establishment.Automaton
import QuorumList.Call

/-!
A round of view establishment.

A round first replaces what other processes cannot hold, then makes at most one transition, and then
announces the own stance to every other process.  A process whose own stance is not legitimate, or
whose agreement component asks for a flush, forgets everything and starts over from the reset pair.

The view of this process is served only while it is steady, supported and witnessed.
-/
namespace QuorumList.Establishment

/-- The establishment of a fresh process: everybody is steady in the initial view. -/
def new (site : Site) : Establishment :=
  { pairs := List.replicate site.cluster.size .initial
    phases := List.replicate site.cluster.size .steady
    echoes := List.replicate site.cluster.size none
    changeWanted := false }

/-! ### Questions -/

/-- Service is allowed: enough processes share our steady pair, or a switch allows it always. -/
def allowService (site : Site) (s : Establishment) : Bool :=
  site.switches.allowService ||
    (3 * site.cluster.faults < site.cluster.nodes.countP (s.samePair site site.me) &&
      (s.own site).phase = .steady &&
      (s.own site).pair.current = (s.own site).pair.next)

/-- The view of this process: it is defined while the view is steady, witnessed and serviceable,
unless a switch forces a view. -/
def ownView (site : Site) (s : Establishment) : View :=
  match site.switches.forceView with
  | some view => view
  | none =>
      if (s.own site).phase = .steady && s.witnessed site && s.allowService site then
        (s.own site).pair.current
      else .tee

/-- The view that a process is in, as far as this one knows. -/
def currentView (site : Site) (s : Establishment) (node : NodeId) : View :=
  if site.cluster.size ≤ node then .tee
  else if node = site.me then s.ownView site
  else (s.pairOf node).current

/-! ### Transitions -/

/-- Ask for a view change.  Only a wish that was not there yet is counted. -/
def wantChange (s : Establishment) : Outcome Establishment :=
  { state := { s with changeWanted := true }
    directives := []
    events := if s.changeWanted then [] else [.viewChangeRequest] }

/-- Set the own stance. -/
def setOwn (site : Site) (stance : Stance) (s : Establishment) : Establishment :=
  { s with
    pairs := s.pairs.set site.me stance.pair
    phases := s.phases.set site.me stance.phase }

/-- Replace the stances of other processes whose pairs nobody can hold. -/
def sanitizePeers (site : Site) (s : Establishment) : Establishment :=
  let bad (k : NodeId) : Bool := k ≠ site.me && !(s.pairOf k).typeCheck site.cluster.size
  { s with
    pairs := s.pairs.mapIdx fun k pair => if bad k then .reset else pair
    phases := s.phases.mapIdx fun k phase => if bad k then .steady else phase }

/-- Forget everything, start over from the reset pair, and take the wish of agreement for it. -/
def resetAll (s : Establishment) : Outcome Establishment :=
  { state :=
      { pairs := s.pairs.map fun _ => .reset
        phases := s.phases.map fun _ => .steady
        echoes := s.echoes.map fun _ => none
        changeWanted := false }
    directives := [.requestReset]
    events := [.reset] }

/-- Adopt the pair of another process. -/
def adopt (site : Site) (k : NodeId) (s : Establishment) : Outcome Establishment :=
  let pair := adoptedPair (s.own site).pair (s.pairOf k)
  let s := s.setOwn site { phase := phaseFor site.cluster.size pair, pair := pair }
  { state := { s with changeWanted := false }, directives := [], events := [] }

/-- Propose the next view.  The wish for a change is used up by it. -/
def nextView (site : Site) (s : Establishment) : Outcome Establishment :=
  let mine := (s.own site).pair
  let pair : ViewPair := { mine with next := mine.current.successor site.cluster.size }
  let s := s.setOwn site { phase := .change, pair := pair }
  { state := { s with changeWanted := false }, directives := [], events := [] }

/-- Establish the view that the change leads to.  A process that comes from the undefined view has
its record dropped. -/
def establish (site : Site) (s : Establishment) : Outcome Establishment :=
  let mine := (s.own site).pair
  { state := s.setOwn site { phase := .steady, pair := .steady mine.next }
    directives := if mine.current.isTee then [.replicaFlush] else []
    events := [.viewEstablished] }

/-- Stay; in the steady phase that drops the wish for a change. -/
def stay (site : Site) (s : Establishment) : Outcome Establishment :=
  { state :=
      { s with changeWanted := s.changeWanted && (s.own site).phase ≠ .steady }
    directives := []
    events := [] }

/-- Carry out a case. -/
def perform (site : Site) (s : Establishment) : Case → Outcome Establishment
  | .adopt k => s.adopt site k
  | .advance =>
      match (s.own site).phase with
      | .steady => s.nextView site
      | .change => s.establish site
  | .stay => s.stay site
  | .reset => s.resetAll

/-- A round: tidy the table, then reset or carry out the selected case. -/
def round (site : Site) (answers : Answers) (s : Establishment) : Outcome Establishment :=
  let s := s.sanitizePeers site
  let flushWanted := !site.switches.nonSelfStab && answers.needFlush
  if s.stale site site.me || flushWanted then s.resetAll
  else s.perform site (s.select site)

/-! ### Messages and calls -/

/-- What this process announces to another one. -/
def announcementTo (site : Site) (s : Establishment) (k : NodeId) : Announcement :=
  Announcement.tampered site.cluster.size k
    { stance := s.own site, echo := s.stanceOf k } site.switches.misbehaviour

/-- The announcements to all other processes, with their receivers. -/
def announcements (site : Site) (s : Establishment) : List (NodeId × Announcement) :=
  site.others.map fun k => (k, s.announcementTo site k)

/-- Keep the stance and the echo of another process, if the stance is legitimate. -/
def receive (site : Site) (sender : NodeId) (a : Announcement) (s : Establishment) :
    Establishment :=
  if site.isPeer sender && a.valid site.cluster.size then
    { s with
      pairs := s.pairs.set sender a.stance.pair
      phases := s.phases.set sender a.stance.phase
      echoes := s.echoes.set sender (some a.echo) }
  else s

/-- Answer a call. -/
def call (site : Site) (function : Function) (s : Establishment) :
    Except BadRoute (Reply × Outcome Establishment) :=
  let unchanged : Outcome Establishment := { state := s, directives := [], events := [] }
  match function with
  | .currentView node => .ok (.view (s.currentView site node), unchanged)
  | .allowService => .ok (.flag (s.allowService site), unchanged)
  | .viewChange => .ok (.done, s.wantChange)
  | other => .error { component := .establishment, function := other }

/-! ### Snapshots -/

/-- The state of establishment as it is shown and given: witnesses are listed beside the echoes they
follow from. -/
structure Snapshot where
  pairs : List ViewPair
  phases : List Phase
  changeWanted : Bool
  witnesses : List Bool
  echoes : List (Option Stance)
deriving DecidableEq, Repr, Inhabited

namespace Snapshot

/-- A snapshot as a JSON value. -/
def toJson (s : Snapshot) : Json :=
  .object
    [ ("echo", .list (.optional Stance.toJson) s.echoes),
      ("phs", .list Phase.toJson s.phases),
      ("vChange", .bool s.changeWanted),
      ("views", .list ViewPair.toJson s.pairs),
      ("witnesses", .list .bool s.witnesses) ]

/-- A snapshot from a JSON value; tables that are left out stand for those already held. -/
def decoder : Json.Decoder Snapshot :=
  .record
    [ .make "views" .optional (.list ViewPair.decoder) fun v s => { s with pairs := v },
      .make "phs" .optional (.list Phase.decoder) fun p s => { s with phases := p },
      .make "vChange" .optional .bool fun c s => { s with changeWanted := c },
      .make "witnesses" .optional (.list .bool) fun w s => { s with witnesses := w },
      .make "echo" .optional (.list (.optional Stance.decoder)) fun e s =>
        { s with echoes := e } ]
    { pairs := [], phases := [], changeWanted := false, witnesses := [], echoes := [] }

end Snapshot

/-- The snapshot of a state. -/
def snapshot (site : Site) (s : Establishment) : Snapshot :=
  { pairs := s.pairs
    phases := s.phases
    changeWanted := s.changeWanted
    witnesses := site.cluster.nodes.map (s.witness site)
    echoes := s.echoes }

/-- The echoes that stand for given witnesses: each witness has echoed the own stance. -/
def echoesOfWitnesses (own : Stance) (witnesses : List Bool) (echoes : List (Option Stance)) :
    List (Option Stance) :=
  echoes.mapIdx fun k echo => if witnesses.getD k false then some own else echo

/-- Take over a given state.  Witnesses count only where no echoes are given. -/
def inject (site : Site) (s : Establishment) (given : Snapshot) :
    Except SizeMismatch Establishment := do
  let n := site.cluster.size
  SizeMismatch.check "views" given.pairs.length n
  SizeMismatch.check "phs" given.phases.length n
  SizeMismatch.check "witnesses" given.witnesses.length n
  SizeMismatch.check "echo" given.echoes.length n
  let s : Establishment :=
    { pairs := replaceUnlessEmpty s.pairs given.pairs
      phases := replaceUnlessEmpty s.phases given.phases
      echoes := replaceUnlessEmpty s.echoes given.echoes
      changeWanted := given.changeWanted }
  if given.echoes.isEmpty then
    pure { s with echoes := echoesOfWitnesses (s.own site) given.witnesses s.echoes }
  else pure s

end QuorumList.Establishment
