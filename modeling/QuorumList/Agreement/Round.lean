import QuorumList.Agreement.Table
import QuorumList.Call

/-!
A round of agreement.

A request passes through the records of the replicas:

```text
pending ──assign──► {prePrep} ──accept──► {prePrep, prep}
                                                │ an adopting quorum prepared it
                                                ▼
   log ◄── an adopting quorum committed it, in order ── {prePrep, prep, commit}
```

One round honours a flush, follows the view that view establishment reports, lets the primary of a
new view renew its requests and the others copy them, flushes a corrupt record, adopts the common
history, moves requests on, and tidies up.  After every round the replica broadcasts its own record,
so a round has no other output.
-/
namespace QuorumList.Agreement

/-- The agreement of a fresh process: nobody has reported anything. -/
def new (site : Site) : Agreement :=
  { records := List.replicate site.cluster.size (.new site.cluster.clients)
    flush := false
    needFlush := false }

/-- Start over with the record of a fresh replica. -/
def flushOwn (site : Site) (s : Agreement) : Agreement :=
  s.updateOwn site fun _ => .new site.cluster.clients

/-- Flush at once, which counts as a local flush. -/
def flushNow (site : Site) (s : Agreement) : Outcome Agreement :=
  { state := s.flushOwn site, directives := [], events := [.localFlush] }

/-- Follow the reported view; entering another one sets `viewChanged`. -/
def trackView (site : Site) (view : View) (s : Agreement) : Agreement :=
  if (s.own site).view = view then s
  else s.updateOwn site fun r => { r with view := view, viewChanged := true }

/-! ### Changing the view -/

/-- Keep a request unless it was executed or one of its origin is kept already. -/
def keepFirst (own : Record) (kept : List ClientRequest) (q : ClientRequest) :
    List ClientRequest :=
  if own.executed q || kept.any (fun r => r.sameOrigin q) then kept else kept ++ [q]

/-- The requests that a new primary starts from: those it had pending, those it had under agreement,
and those that are widely known, the first of each origin and no more than it may keep pending. -/
def renewedRequests (site : Site) (s : Agreement) : List ClientRequest :=
  let own := s.own site
  let candidates := own.pending ++ queuedRequests own ++ s.knownPending site
  (candidates.foldl (keepFirst own) []).take site.cluster.pendingCapacity

/-- Roll everything under agreement back into the pending requests. -/
def renewRequests (site : Site) (s : Agreement) : Agreement :=
  let renewed := s.renewedRequests site
  s.updateOwn site fun r =>
    { r with pending := renewed, queue := [], seq := r.lastExec }

/-- Adopt the common history if ours has left it or is behind it; without one, raise the conflict
flag. -/
def findCommonHistory (site : Site) (s : Agreement) : Agreement :=
  match s.adoptable site with
  | none => s.updateOwn site fun r => { r with conflict := true }
  | some (state, holder) =>
      let source := s.recordOf holder
      s.updateOwn site fun r =>
        let r := { r with conflict := false }
        if holder = site.me then r
        else if source.lastExec ≤ r.lastExec && r.consistentWith source then r
        else
          { r with
            state := state
            log := source.log
            replies := source.replies }.pruneExecuted

/-- The processes that have noticed a view and wait for its primary. -/
def readyFor (view : View) (s : Agreement) : Nat :=
  s.records.countP fun r => r.viewChanged && r.view = view

/-- The primary of a new view renews its requests once an establishing quorum waits for it. -/
def leadView (site : Site) (view : View) (s : Agreement) : Agreement :=
  if site.cluster.establishQuorum ≤ s.readyFor view then
    ((s.renewRequests site).findCommonHistory site).updateOwn site fun r =>
      { r with viewChanged := false }
  else s

/-- Copy the renewed record of a primary; the conflict flag and the view stay. -/
def copyFrom (proposed : Record) (r : Record) : Record :=
  { proposed with
    conflict := r.conflict
    viewChanged := false
    view := r.view }

/-- A follower copies the record of the new primary once the primary has renewed it. -/
def followView (site : Site) (view : View) (primary : NodeId) (s : Agreement) : Agreement :=
  let proposed := s.recordOf primary
  if proposed.viewChanged || proposed.view ≠ view || !s.acceptsNewPrimary site primary then s
  else s.updateOwn site (copyFrom proposed)

/-- Work on the change to a view whose primary has not renewed its requests yet. -/
def changeView (site : Site) (view : View) (primary : NodeId) (s : Agreement) : Agreement :=
  if primary = site.me then s.leadView site view else s.followView site view primary

/-! ### Moving requests on -/

/-- The queue entries for requests that are assigned behind `seq` and not beyond `limit`, and the
last number given out. -/
def assignBehind (view : View) (limit : Nat) : Nat → List ClientRequest → List QueueEntry × Nat
  | seq, [] => ([], seq)
  | seq, q :: rest =>
      if limit ≤ seq then ([], seq)
      else
        let entry : QueueEntry :=
          { request := { request := q, view := view, seq := seq + 1 }, status := .prepared }
        let (entries, last) := assignBehind view limit (seq + 1) rest
        (entry :: entries, last)

/-- The primary gives the next sequence numbers to its unassigned requests, and prepares them. -/
def assign (site : Site) (view : View) (s : Agreement) : Agreement :=
  let requests := s.unassigned site view
  s.updateOwn site fun r =>
    let (entries, last) :=
      assignBehind view (windowEnd site r.lastExec) (max r.seq r.lastExec) requests
    { r with queue := r.queue ++ entries, seq := last }

/-- Take a proposal into the queue if it is acceptable. -/
def acceptOne (site : Site) (view : View) (r : Record) (a : AssignedRequest) : Record :=
  if acceptsProposal site view a r then
    { r with queue := r.queue ++ [{ request := a, status := .prepared }] }
  else r

/-- A follower prepares the acceptable proposals of the primary. -/
def acceptProposals (site : Site) (view : View) (primary : NodeId) (s : Agreement) : Agreement :=
  if primary = site.me then s
  else
    let proposals :=
      ((s.recordOf primary).queue.filter fun e => e.status.has .prePrep).map QueueEntry.request
    s.updateOwn site fun r => proposals.foldl (acceptOne site view) r

/-- Commit the prepared requests that an adopting quorum prepared. -/
def prepareToCommit (site : Site) (s : Agreement) : Agreement :=
  let known := s.knownWith site .prep
  s.updateOwn site fun r =>
    { r with
      queue := r.queue.map fun e =>
        if e.status.has .prePrep && e.status.has .prep && known.contains e.request then
          { e with status := e.status.insert .commit }
        else e }

/-- The committed request that comes next in sequence. -/
def nextCommitted? (r : Record) : Option AssignedRequest :=
  if r.lastExec = Json.maxUnsigned then none
  else
    (r.queue.find? fun e => e.status.has .commit && e.request.seq = r.lastExec + 1).map
      QueueEntry.request

/-- Execute committed requests in sequence while an adopting quorum has committed the next one.
Each execution takes at least one entry off the queue, whose length bounds their number; the result
counts them. -/
def commitUpTo (site : Site) : Nat → Agreement → Agreement × Nat
  | 0, s => (s, 0)
  | bound + 1, s =>
      match nextCommitted? (s.own site) with
      | none => (s, 0)
      | some a =>
          let executedBy := s.committedBy site a
          if executedBy.card < site.cluster.adoptQuorum then (s, 0)
          else
            let s := s.updateOwn site (Record.apply a executedBy site.cluster.logCapacity)
            let (s, count) := commitUpTo site bound s
            (s, count + 1)

/-- Execute what can be executed. -/
def commit (site : Site) (s : Agreement) : Agreement × Nat :=
  commitUpTo site (s.own site).queue.length s

/-- Remember who has executed the requests of the log, and drop what is unsupported or executed.
Entries of an old view wait for renewal while the view changes. -/
def tidy (site : Site) (view : View) (s : Agreement) : Agreement :=
  let s' := s.updateOwn site fun r =>
    { r with
      log := r.log.map fun e =>
        { e with executedBy := e.executedBy.union (s.committedBy site e.request) } }
  s'.updateOwn site fun r =>
    let r :=
      if r.viewChanged then r
      else { r with queue := r.queue.filter fun e => !s'.unsupported site view e.request }
    r.pruneExecuted

/-- The primary may assign: it does not refuse to, and nobody reports a view change. -/
def mayAssign (site : Site) (answers : Answers) : Bool :=
  site.switches.misbehaviour ≠ some .stopAssigning &&
    (site.switches.forceNoViewChange || answers.noViewChange.getD true)

/-- Assign, accept, prepare and commit; the result counts the executed requests. -/
def agree (site : Site) (answers : Answers) (view : View) (primary : NodeId) (s : Agreement) :
    Agreement × Nat :=
  let s := if primary = site.me && mayAssign site answers then s.assign site view else s
  ((s.acceptProposals site view primary).prepareToCommit site).commit site

/-! ### The round -/

/-- The part of a round that acts in a defined view. -/
def actIn (site : Site) (answers : Answers) (view : View) (primary : NodeId) (s : Agreement) :
    Outcome Agreement :=
  let s := s.trackView site view
  let s := if (s.own site).viewChanged then s.changeView site view primary else s
  if !site.switches.nonSelfStab && (s.conflict site || s.corrupt site) then
    { s with needFlush := true }.flushNow site
  else
    let s := s.findCommonHistory site
    let (s, executed) :=
      if (s.own site).viewChanged then (s, 0) else s.agree site answers view primary
    { state := s.tidy site view
      directives := []
      events := List.replicate executed .requestCommitted }

/-- A round: honour a flush, then act in the view that view establishment reports, if any. -/
def round (site : Site) (answers : Answers) (s : Agreement) : Outcome Agreement :=
  let flushed := if s.flush then [Event.localFlush] else []
  let s := if s.flush then { s.flushOwn site with flush := false } else s
  match answers.viewOf site.me with
  | .tee => { state := s, directives := [], events := flushed }
  | .id primary =>
      let outcome := s.actIn site answers (.id primary) primary
      { outcome with events := flushed ++ outcome.events }

/-! ### Requests, messages and calls -/

/-- Why a client request is not buffered. -/
inductive Refusal where
  | pendingFull (capacity : Nat)
  | alreadyExecuted (client : ClientId) (timestamp : Nat)
  | unknownClient (client : ClientId) (known : Nat)
deriving DecidableEq, Repr

/-- The text of a refusal. -/
def Refusal.message : Refusal → String
  | .pendingFull capacity => s!"pending request queue is full ({capacity} entries)"
  | .alreadyExecuted client timestamp => s!"request ({client}, {timestamp}) was already executed"
  | .unknownClient client known =>
      s!"unknown client {client} (only {known} clients are configured)"

/-- Buffer a client request.  A request of an origin that is pending already changes nothing. -/
def submit (site : Site) (q : ClientRequest) (s : Agreement) : Except Refusal Agreement :=
  let own := s.own site
  if site.cluster.clients ≤ q.client then
    .error (.unknownClient q.client site.cluster.clients)
  else if own.executed q then .error (.alreadyExecuted q.client q.timestamp)
  else if own.pending.any (fun p => p.sameOrigin q) then .ok s
  else if site.cluster.pendingCapacity ≤ own.pending.length then
    .error (.pendingFull site.cluster.pendingCapacity)
  else .ok (s.updateOwn site fun r => { r with pending := r.pending ++ [q] })

/-- Cut a record to the bounds of the cluster. -/
def sanitizeRecord (site : Site) (r : Record) : Record :=
  r.sanitize site.cluster.clients site.cluster.pendingCapacity site.cluster.logCapacity

/-- Keep the record that another process broadcast. -/
def receive (site : Site) (sender : NodeId) (r : Record) (s : Agreement) : Agreement :=
  if site.isPeer sender then
    { s with records := s.records.set sender (sanitizeRecord site r) }
  else s

/-- Answer a call. -/
def call (site : Site) (function : Function) (s : Agreement) :
    Except BadRoute (Reply × Agreement) :=
  match function with
  | .replicaFlush => .ok (.done, { s with flush := true })
  | .pendingRequests => .ok (.requests (s.own site).pending, s)
  | .requestReset => .ok (.flag s.needFlush, { s with needFlush := false })
  | .needFlush => .ok (.flag s.needFlush, s)
  | other => .error { component := .agreement, function := other }

/-! ### Snapshots -/

/-- The state as a JSON value. -/
def toJson (s : Agreement) : Json :=
  .object
    [ ("flush", .bool s.flush),
      ("need_flush", .bool s.needFlush),
      ("rep", .list Record.toJson s.records) ]

/-- A state from a JSON value; records that are left out stand for those already held. -/
def decoder : Json.Decoder Agreement :=
  .record
    [ .make "rep" .optional (.list Record.decoder) fun r s => { s with records := r },
      .make "flush" .optional .bool fun f s => { s with flush := f },
      .make "need_flush" .optional .bool fun f s => { s with needFlush := f } ]
    { records := [], flush := false, needFlush := false }

/-- Take over a given state, its records cut to the bounds of the cluster. -/
def inject (site : Site) (s : Agreement) (given : Agreement) : Except SizeMismatch Agreement := do
  SizeMismatch.check "rep" given.records.length site.cluster.size
  pure
    { records := replaceUnlessEmpty s.records (given.records.map (sanitizeRecord site))
      flush := given.flush
      needFlush := given.needFlush }

end QuorumList.Agreement
