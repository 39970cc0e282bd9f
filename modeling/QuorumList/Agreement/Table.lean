import QuorumList.Cluster
import QuorumList.Record.Wire

/-!
The table of records, and what a replica reads off it.

A replica keeps the record each process last reported, its own at its own place.  Nothing is voted
on separately: a request is prepared, committed or known because enough records of the table show
it.  The functions of this module only read the table.

The most advanced history that enough processes share decides what is safe to adopt.  `sharedBelow`
looks, for one sound record, at all sound records whose history it extends; of these the `k`-th most
advanced is a beginning of `k` histories at least.
-/
namespace QuorumList

/-- The state of agreement: the records of all processes, whether view establishment has asked for a
flush, and whether a flush of its own wants view establishment to reset. -/
structure Agreement where
  records : List Record
  flush : Bool
  needFlush : Bool
deriving DecidableEq, Repr, Inhabited

namespace Agreement

/-- The record that a process last reported. -/
def recordOf (s : Agreement) (k : NodeId) : Record :=
  s.records.getD k .blank

/-- The record of this process. -/
def own (site : Site) (s : Agreement) : Record :=
  s.recordOf site.me

/-- Change the record of this process. -/
def updateOwn (site : Site) (f : Record → Record) (s : Agreement) : Agreement :=
  { s with records := s.records.modify site.me f }

@[simp] theorem length_records_updateOwn (site : Site) (f : Record → Record) (s : Agreement) :
    (s.updateOwn site f).records.length = s.records.length := by
  simp [updateOwn]

theorem recordOf_updateOwn_of_ne {site : Site} {k : NodeId} (other : k ≠ site.me)
    (f : Record → Record) (s : Agreement) : (s.updateOwn site f).recordOf k = s.recordOf k := by
  simp [recordOf, updateOwn, Ne.symm other]

theorem own_updateOwn {site : Site} {s : Agreement} (inTable : site.me < s.records.length)
    (f : Record → Record) : (s.updateOwn site f).own site = f (s.own site) := by
  simp [own, recordOf, updateOwn, inTable]

/-- The processes whose records have a property. -/
def supporters (site : Site) (p : Record → Bool) (s : Agreement) : NodeSet :=
  .filterBelow site.cluster.size fun k => p (s.recordOf k)

/-- The processes that have committed or executed exactly this assignment. -/
def committedBy (site : Site) (a : AssignedRequest) (s : Agreement) : NodeSet :=
  s.supporters site fun r => r.carries a .commit || r.hasLogged a

/-- An establishing quorum found no common history. -/
def conflict (site : Site) (s : Agreement) : Bool :=
  site.cluster.establishQuorum ≤ s.records.countP Record.conflict

/-- The record of this process is corrupt: a sequence number near the bound, a request with two
places, a gap in the log, or a log entry that too few processes executed. -/
def corrupt (site : Site) (s : Agreement) : Bool :=
  let own := s.own site
  !own.seqsBelow site.cluster.seqLimit || own.double || own.logGaps ||
    own.log.any fun e => e.executedBy.card < site.cluster.adoptQuorum

/-- A record that may count towards a common history and may be copied from. -/
def sound (site : Site) (r : Record) : Bool :=
  r.seqsBelow site.cluster.seqLimit && !r.logGaps && !r.double

/-- The processes with sound records, in order. -/
def soundNodes (site : Site) (s : Agreement) : List NodeId :=
  site.cluster.nodes.filter fun j => sound site (s.recordOf j)

/-- The processes of a list, the most advanced first; at equal progress the order stays. -/
def byProgress (s : Agreement) (nodes : List NodeId) : List NodeId :=
  nodes.mergeSort fun i j => (s.recordOf j).lastExec ≤ (s.recordOf i).lastExec

/-- The process with the `k`-th most advanced of the sound histories that the record of `top`
extends, if there are that many. -/
def sharedBelow (site : Site) (k : Nat) (s : Agreement) (top : NodeId) : Option NodeId :=
  let chain := (s.soundNodes site).filter fun j => (s.recordOf j).precedes (s.recordOf top)
  (s.byProgress chain)[k - 1]?

/-- For every sound record the most advanced history that `k` sound records share below it, with a
process that holds exactly that history. -/
def commonHistories (site : Site) (k : Nat) (s : Agreement) : List (List Int × NodeId) :=
  if k = 0 then []
  else
    (s.soundNodes site).filterMap fun top =>
      (s.sharedBelow site k top).map fun holder => ((s.recordOf holder).state, holder)

/-- Of two common histories the more advanced; at equal progress the first. -/
def moreAdvanced (s : Agreement) (best candidate : List Int × NodeId) : List Int × NodeId :=
  if (s.recordOf best.2).lastExec < (s.recordOf candidate.2).lastExec then candidate else best

/-- The most advanced history that an adopting quorum shares, and a process that holds it. -/
def adoptable (site : Site) (s : Agreement) : Option (List Int × NodeId) :=
  match s.commonHistories site site.cluster.adoptQuorum with
  | [] => none
  | first :: rest => some (rest.foldl s.moreAdvanced first)

/-- The largest sequence number whose log entry this process shares with an adopting quorum. -/
def lastCommonExec (site : Site) (s : Agreement) : Option Nat :=
  let shared := (s.own site).logged.filter fun a =>
    site.cluster.adoptQuorum ≤ (s.supporters site fun r => r.hasLogged a).card
  (shared.map AssignedRequest.seq).max?

/-- The queued requests of this process that an adopting quorum carries with a status. -/
def knownWith (site : Site) (status : Status) (s : Agreement) : List AssignedRequest :=
  (s.own site).queued.filter fun a =>
    site.cluster.adoptQuorum ≤ (s.supporters site fun r => r.carries a status).card

/-- The client requests under agreement in a record. -/
def queuedRequests (r : Record) : List ClientRequest :=
  r.queued.map AssignedRequest.request

/-- An adopting quorum has the request pending, or an adopting quorum has it under agreement. -/
def widelyKnown (site : Site) (s : Agreement) (q : ClientRequest) : Bool :=
  site.cluster.adoptQuorum ≤ s.records.countP (fun r => r.pending.contains q) ||
    site.cluster.adoptQuorum ≤ s.records.countP (fun r => (queuedRequests r).contains q)

/-- The requests that are widely known, in the order of requests. -/
def knownPending (site : Site) (s : Agreement) : List ClientRequest :=
  let mentioned := s.records.flatMap fun r => r.pending ++ queuedRequests r
  (mentioned.filter (s.widelyKnown site)).eraseDups.mergeSort ClientRequest.le

/-- The record of a new primary may be copied: it is sound, its history is consistent with that of
an adopting quorum, its log reaches the last common execution, and its sequence number is behind
neither its log nor its queue. -/
def acceptsNewPrimary (site : Site) (primary : NodeId) (s : Agreement) : Bool :=
  let proposed := s.recordOf primary
  sound site proposed &&
    site.cluster.adoptQuorum ≤ s.records.countP (fun r => r.consistentWith proposed) &&
    (match s.lastCommonExec site with
      | some last => decide (last ≤ proposed.lastExec)
      | none => true) &&
    proposed.lastExec ≤ proposed.seq &&
    Record.largestSeq proposed.queued ≤ proposed.seq

/-- The largest sequence number that may be in use while requests up to `lastExec` are executed. -/
def windowEnd (site : Site) (lastExec : Nat) : Nat :=
  min (lastExec + site.cluster.logCapacity) Json.maxUnsigned

/-- A follower takes a proposal of the primary into its queue: it is of the view, inside the window,
new to the queue both as a request and as a place, and not executed. -/
def acceptsProposal (site : Site) (view : View) (a : AssignedRequest) (own : Record) : Bool :=
  a.view = view &&
    (own.lastExec < a.seq && a.seq < site.cluster.seqLimit &&
      a.seq ≤ windowEnd site own.lastExec) &&
    !(own.queue.any fun e =>
      e.request.request.sameOrigin a.request ||
        (e.request.view = a.view && e.request.seq = a.seq)) &&
    !own.executed a.request

/-- The primary has proposed a request of the same origin. -/
def proposedBy (primary : Record) (q : ClientRequest) : Bool :=
  primary.queue.any fun e => e.status.has .prePrep && e.request.request.sameOrigin q

/-- The pending requests of this process that nobody has queued, executed or proposed. -/
def unassigned (site : Site) (view : View) (s : Agreement) : List ClientRequest :=
  let own := s.own site
  own.pending.filter fun q =>
    !own.isQueued q && !own.executed q &&
      !(match view.node? with
        | some primary => proposedBy (s.recordOf primary) q
        | none => false)

/-- Another process carries the assignment. -/
def carriedElsewhere (site : Site) (a : AssignedRequest) (s : Agreement) : Bool :=
  site.others.any fun k => ((s.recordOf k).entryOf? a).isSome

/-- A queued assignment of another view that no other process carries. -/
def unsupported (site : Site) (view : View) (s : Agreement) (a : AssignedRequest) : Bool :=
  a.view ≠ view && !s.carriedElsewhere site a

end Agreement

end QuorumList
