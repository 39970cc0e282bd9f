import QuorumList.NodeSet
import QuorumList.Request

/-!
Replica records.

A record is all that a replica says about itself: the list it has built, the log of the requests it
executed last, the requests it has pending or under agreement, the last reply to each client, and
where it stands in the current view.  Replicas compare records to find out whose history extends
whose: `precedes` holds when one executed history is a beginning of the other, as far as both logs
still show it.
-/
namespace QuorumList

/-- An executed request, and the processes known to have executed it. -/
structure LogEntry where
  request : AssignedRequest
  executedBy : NodeSet
deriving DecidableEq, Repr

/-- A request under agreement, and the statuses it has collected. -/
structure QueueEntry where
  request : AssignedRequest
  status : StatusSet
deriving DecidableEq, Repr

/-- The last executed request of a client, and the list right after it. -/
structure LastReply where
  request : ClientRequest
  reply : List Int
deriving DecidableEq, Repr

/-- Everything a replica broadcasts about itself. -/
structure Record where
  /-- The replicated list. -/
  state : List Int
  /-- The requests executed last, oldest first. -/
  log : List LogEntry
  /-- The requests waiting for an assignment. -/
  pending : List ClientRequest
  /-- The requests under agreement. -/
  queue : List QueueEntry
  /-- The last reply to each client, by client. -/
  replies : List (Option LastReply)
  /-- The last sequence number that was assigned. -/
  seq : Nat
  /-- The replica found no history that enough others share. -/
  conflict : Bool
  /-- The replica has entered a view whose primary has not renewed its requests yet. -/
  viewChanged : Bool
  /-- The view the replica is in. -/
  view : View
deriving DecidableEq, Repr

namespace Record

/-- The record without any history and without a place for any client. -/
def blank : Record :=
  { state := []
    log := []
    pending := []
    queue := []
    replies := []
    seq := 0
    conflict := false
    viewChanged := false
    view := .tee }

instance : Inhabited Record :=
  ⟨blank⟩

/-- The record of a fresh replica that knows a number of clients. -/
def new (clients : Nat) : Record :=
  { blank with replies := List.replicate clients none }

/-- The largest sequence number in a list of assigned requests, or zero. -/
def largestSeq (requests : List AssignedRequest) : Nat :=
  (requests.map AssignedRequest.seq).foldl max 0

/-- The requests of the log. -/
def logged (r : Record) : List AssignedRequest :=
  r.log.map LogEntry.request

/-- The requests of the queue. -/
def queued (r : Record) : List AssignedRequest :=
  r.queue.map QueueEntry.request

/-- The largest sequence number in the log, or zero. -/
def lastExec (r : Record) : Nat :=
  largestSeq r.logged

/-- A request was executed: its client has a reply at this timestamp or later, or the log holds a
request of the same origin. -/
def executed (r : Record) (q : ClientRequest) : Bool :=
  (match r.replies[q.client]? with
    | some (some last) => decide (q.timestamp ≤ last.request.timestamp)
    | _ => false) ||
  r.log.any fun e => e.request.request.sameOrigin q

/-- The log holds exactly this assignment. -/
def hasLogged (r : Record) (a : AssignedRequest) : Bool :=
  r.log.any fun e => e.request = a

/-- The queue entry for exactly this assignment. -/
def entryOf? (r : Record) (a : AssignedRequest) : Option QueueEntry :=
  r.queue.find? fun e => e.request = a

/-- The queue holds exactly this assignment with a status. -/
def carries (r : Record) (a : AssignedRequest) (status : Status) : Bool :=
  match r.entryOf? a with
  | some e => e.status.has status
  | none => false

/-- The queue holds a request of the same origin. -/
def isQueued (r : Record) (q : ClientRequest) : Bool :=
  r.queue.any fun e => e.request.request.sameOrigin q

/-- Two assignments give one client request different places. -/
def reassigns (a b : AssignedRequest) : Bool :=
  a.request.sameOrigin b.request && (a.seq ≠ b.seq || a.view ≠ b.view)

/-- Some request of the list is given another place further on. -/
def anyReassigned : List AssignedRequest → Bool
  | [] => false
  | a :: rest => rest.any (reassigns a) || anyReassigned rest

/-- The queue gives some client request two places. -/
def double (r : Record) : Bool :=
  anyReassigned r.queued

/-- Some request does not follow its neighbour by exactly one.  The largest 64-bit number has no
successor. -/
def anyGap : List AssignedRequest → Bool
  | a :: b :: rest => (a.seq = Json.maxUnsigned || a.seq + 1 ≠ b.seq) || anyGap (b :: rest)
  | _ => false

/-- The sequence numbers of the log are not consecutive. -/
def logGaps (r : Record) : Bool :=
  anyGap r.logged

/-- Every sequence number of the record lies below a limit. -/
def seqsBelow (r : Record) (limit : Nat) : Bool :=
  r.seq < limit &&
    r.queue.all (fun e => e.request.seq < limit) &&
    r.log.all (fun e => e.request.seq < limit)

/-- Wherever both logs still hold a sequence number, they agree on the assignment. -/
def agreesWith (r other : Record) : Bool :=
  r.log.all fun e =>
    match other.log.find? (fun o => o.request.seq = e.request.seq) with
    | some o => o.request = e.request
    | none => true

/-- The executed history of `r` is a beginning of that of `other`: it goes no further, the logs
agree, and at equal progress so do the lists. -/
def precedes (r other : Record) : Bool :=
  r.lastExec ≤ other.lastExec && r.agreesWith other &&
    (r.lastExec < other.lastExec || r.state = other.state)

/-- One executed history extends the other. -/
def consistentWith (r other : Record) : Bool :=
  r.precedes other || other.precedes r

/-- The last entries of a list, at most `capacity` of them. -/
def lastEntries {α : Type} (capacity : Nat) (l : List α) : List α :=
  l.drop (l.length - capacity)

/-- The list cut or padded with absent entries to a length. -/
def resize {α : Type} (length : Nat) (l : List (Option α)) : List (Option α) :=
  l.take length ++ List.replicate (length - l.length) none

/-- Remember the reply to a client, making room for the client if needed. -/
def setReply (replies : List (Option LastReply)) (client : ClientId) (reply : LastReply) :
    List (Option LastReply) :=
  (if client < replies.length then replies else resize (client + 1) replies).set client
    (some reply)

/-- Execute a committed request: it leaves the pending requests and the queue, enters the log, which
keeps its last entries, changes the list and becomes the last reply to its client. -/
def apply (a : AssignedRequest) (executedBy : NodeSet) (logCapacity : Nat) (r : Record) :
    Record :=
  let q := a.request
  let state := q.operation.apply r.state
  { r with
    pending := r.pending.filter fun p => !p.sameOrigin q
    queue := r.queue.filter fun e => !e.request.request.sameOrigin q
    log := lastEntries logCapacity (r.log ++ [{ request := a, executedBy := executedBy }])
    state := state
    replies := setReply r.replies q.client { request := q, reply := state } }

/-- Drop the pending and queued requests that were executed. -/
def pruneExecuted (r : Record) : Record :=
  { r with
    pending := r.pending.filter fun q => !r.executed q
    queue := r.queue.filter fun e => !r.executed e.request.request }

/-- Cut every collection to its bound.  Records of other processes and of start states pass through
here. -/
def sanitize (clients pendingCapacity logCapacity : Nat) (r : Record) : Record :=
  { r with
    replies := resize clients r.replies
    pending := r.pending.take pendingCapacity
    queue := r.queue.take logCapacity
    log := lastEntries logCapacity r.log }

end Record

end QuorumList
