import QuorumList.Proofs.Invariants
import QuorumList.Proofs.Reigns

/-!
Executing a request again.

A replica remembers what it has executed in two places, and both forget.  The log keeps the last
`3 * sigma * clients` requests, and the replies keep one request for each client, the one executed
last, which need not be the one with the largest timestamp.  A request that is neither in the log
nor behind the last reply to its client counts as new.

So while all replicas stay in one view, a request can be executed a second time, but only when both
memories have lost it: the first execution lies more than a whole log back, and since then the
client has had a request with a smaller timestamp executed.  `Record.Recalls` is the invariant: a
record has replied to the last request of each client on the line, and whatever it has queued is new
or forgotten in this sense.
-/
namespace QuorumList

/-! ### The last request of a client -/

/-- The last request of a client on a line. -/
def lastOf? (client : ClientId) (line : List AssignedRequest) : Option AssignedRequest :=
  line.reverse.find? fun a => a.request.client = client

theorem lastOf?_append_singleton (client : ClientId) (line : List AssignedRequest)
    (a : AssignedRequest) :
    lastOf? client (line ++ [a]) =
      if a.request.client = client then some a else lastOf? client line := by
  rw [lastOf?, List.reverse_concat, List.find?_cons]
  by_cases same : a.request.client = client
  · simp [same]
  · simp [same, lastOf?]

theorem lastOf?_eq_none {client : ClientId} {line : List AssignedRequest}
    (absent : ∀ a ∈ line, a.request.client ≠ client) : lastOf? client line = none := by
  rw [lastOf?, List.find?_eq_none]
  intro a member
  simpa using absent a (List.mem_reverse.mp member)

/-- A client that has a request on the line has a last one, which stands behind all others. -/
theorem Numbered.exists_lastOf? {line : List AssignedRequest} (numbered : Numbered line)
    {b : AssignedRequest} (inLine : b ∈ line) :
    ∃ m ∈ line, lastOf? b.request.client line = some m ∧
      m.request.client = b.request.client ∧ b.seq ≤ m.seq := by
  cases found : lastOf? b.request.client line with
  | none =>
      have absent := List.find?_eq_none.mp found b (List.mem_reverse.mpr inLine)
      simp at absent
  | some m =>
      obtain ⟨ofClient, later, earlier, split, others⟩ := List.find?_eq_some_iff_append.mp found
      have inOrder : line = earlier.reverse ++ m :: later.reverse := by
        rw [← line.reverse_reverse, split]
        simp
      refine ⟨m, List.mem_reverse.mp (List.mem_of_find?_eq_some found), rfl,
        by simpa using ofClient, ?_⟩
      have rising : line.Pairwise fun a b => a.seq < b.seq :=
        Record.pairwise_seq_of_map_seq numbered
      rw [inOrder] at inLine rising
      rcases List.mem_append.mp inLine with before | after
      · exact Nat.le_of_lt ((List.pairwise_append.mp rising).2.2 b before m List.mem_cons_self)
      · rcases List.mem_cons.mp after with rfl | behind
        · exact Nat.le_refl _
        · have := others b (List.mem_reverse.mp behind)
          simp at this

/-! ### Forgetting -/

/-- Of the requests executed so far, this one is a whole log back, and behind it the client had one
with a smaller timestamp executed. -/
def Forgotten (capacity : Nat) (done : List AssignedRequest) (b : AssignedRequest) : Prop :=
  b.seq + capacity ≤ done.length ∧
    ∃ m ∈ done, b.seq < m.seq ∧ m.request.client = b.request.client ∧
      m.request.timestamp < b.request.timestamp

/-- Whatever was executed of the origin of a request is forgotten. -/
def NewOrForgotten (capacity : Nat) (done : List AssignedRequest) (q : ClientRequest) : Prop :=
  ∀ b ∈ done, b.request.sameOrigin q = true → Forgotten capacity done b

/-- Each request was new or forgotten when it was executed. -/
def RepeatsForgotten (capacity : Nat) (done : List AssignedRequest) : Prop :=
  ∀ before a, before ++ [a] <+: done → NewOrForgotten capacity before a.request

theorem Forgotten.append_singleton {capacity : Nat} {done : List AssignedRequest}
    {b : AssignedRequest} (forgotten : Forgotten capacity done b) (a : AssignedRequest) :
    Forgotten capacity (done ++ [a]) b := by
  obtain ⟨old, m, member, behind⟩ := forgotten
  refine ⟨?_, m, List.mem_append_left _ member, behind⟩
  rw [List.length_append]
  omega

theorem NewOrForgotten.append_singleton {capacity : Nat} {done : List AssignedRequest}
    {q : ClientRequest} (fresh : NewOrForgotten capacity done q) {a : AssignedRequest}
    (other : q.sameOrigin a.request = false) : NewOrForgotten capacity (done ++ [a]) q := by
  intro b member sameOrigin
  rcases List.mem_append.mp member with old | new
  · exact (fresh b old sameOrigin).append_singleton a
  · obtain rfl := List.mem_singleton.mp new
    simp only [ClientRequest.sameOrigin, Bool.and_eq_true, decide_eq_true_eq] at sameOrigin
    simp [ClientRequest.sameOrigin, sameOrigin] at other

theorem RepeatsForgotten.nil (capacity : Nat) : RepeatsForgotten capacity [] := by
  intro before a start
  simp at start

theorem RepeatsForgotten.append_singleton {capacity : Nat} {done : List AssignedRequest}
    (forgotten : RepeatsForgotten capacity done) {a : AssignedRequest}
    (fresh : NewOrForgotten capacity done a.request) :
    RepeatsForgotten capacity (done ++ [a]) := by
  intro before b start
  rcases List.prefix_concat_iff.mp start with whole | part
  · obtain ⟨rfl, isLast⟩ := List.append_inj' whole rfl
    obtain rfl := List.singleton_inj.mp isLast
    exact fresh
  · exact forgotten before b part

/-- Of two executed requests of one origin the earlier was forgotten when the later was executed. -/
theorem RepeatsForgotten.of_lt {capacity : Nat} {done : List AssignedRequest}
    (forgotten : RepeatsForgotten capacity done) (numbered : Numbered done)
    {a b : AssignedRequest} (ofA : a ∈ done) (ofB : b ∈ done) (before : b.seq < a.seq)
    (sameOrigin : b.request.sameOrigin a.request = true) :
    b.seq + capacity < a.seq ∧ ∃ m ∈ done, b.seq < m.seq ∧ m.seq < a.seq ∧
      m.request.client = b.request.client ∧ m.request.timestamp < b.request.timestamp := by
  obtain ⟨positive, found⟩ := numbered.getElem?_of_mem ofA
  have start : done.take (a.seq - 1) ++ [a] <+: done := by
    obtain ⟨short, here⟩ := List.getElem?_eq_some_iff.mp found
    have longer := List.take_append_getElem short
    rw [here] at longer
    exact longer ▸ List.take_prefix _ _
  have earlier : b ∈ done.take (a.seq - 1) :=
    (numbered.mem_take_iff _).mpr ⟨ofB, by omega⟩
  obtain ⟨old, m, member, behind⟩ := forgotten _ _ start b earlier sameOrigin
  obtain ⟨inDone, upTo⟩ := (numbered.mem_take_iff _).mp member
  rw [List.length_take] at old
  exact ⟨by omega, m, inDone, behind.1, by omega, behind.2⟩

namespace Record

/-! ### What a record remembers -/

/-- The last request of a client that the record has a reply to. -/
def lastRequest? (r : Record) (client : ClientId) : Option ClientRequest :=
  r.replies[client]?.join.map LastReply.request

theorem executed_iff {r : Record} {q : ClientRequest} :
    r.executed q = true ↔
      (∃ last, r.lastRequest? q.client = some last ∧ q.timestamp ≤ last.timestamp) ∨
        ∃ a ∈ r.logged, a.request.sameOrigin q = true := by
  rw [executed, Bool.or_eq_true, List.any_eq_true]
  refine or_congr ?_ ?_
  · unfold lastRequest?
    cases r.replies[q.client]? with
    | none => simp
    | some reply => cases reply <;> simp
  · simp [logged]

theorem getElem?_join_resize {α : Type} (length : Nat) (l : List (Option α)) (k : Nat) :
    (resize length l)[k]?.join = if k < length then l[k]?.join else none := by
  rw [resize, List.getElem?_append, List.length_take, List.getElem?_replicate]
  by_cases inside : k < length
  · by_cases inList : k < l.length
    · rw [if_pos (by omega), if_pos inside, List.getElem?_take_of_lt inside]
    · rw [if_neg (by omega), if_pos inside, List.getElem?_eq_none (by omega)]
      split <;> rfl
  · rw [if_neg (by omega), if_neg inside, if_neg (by omega)]
    rfl

theorem length_resize {α : Type} (length : Nat) (l : List (Option α)) :
    (resize length l).length = length := by
  rw [resize, List.length_append, List.length_take, List.length_replicate]
  omega

theorem getElem?_join_setReply (replies : List (Option LastReply)) (client k : ClientId)
    (reply : LastReply) :
    (setReply replies client reply)[k]?.join =
      if client = k then some reply else replies[k]?.join := by
  rw [setReply]
  by_cases isClient : client = k
  · rw [← isClient, List.getElem?_set_self, if_pos rfl]
    · rfl
    · split
      · assumption
      · rw [length_resize]
        exact Nat.lt_succ_self client
  · rw [List.getElem?_set_ne isClient, if_neg isClient]
    split
    · rfl
    · next short =>
        rw [getElem?_join_resize]
        split
        · rfl
        · next outside =>
            rw [List.getElem?_eq_none]
            · rfl
            · exact Nat.le_trans (Nat.not_lt.mp short) (Nat.le_of_succ_le (Nat.not_lt.mp outside))

theorem lastRequest?_apply (r : Record) (a : AssignedRequest) (executedBy : NodeSet)
    (capacity : Nat) (client : ClientId) :
    (r.apply a executedBy capacity).lastRequest? client =
      if a.request.client = client then some a.request else r.lastRequest? client := by
  rw [lastRequest?, apply]
  dsimp only
  rw [getElem?_join_setReply]
  split <;> rfl

/-! ### Records that recall a line -/

/-- The record is genuine for a line and has replied to the last request of each client; whatever it
has queued is new or forgotten, and so was whatever it has executed. -/
structure Recalls (capacity : Nat) (line : List AssignedRequest) (r : Record) : Prop where
  genuine : r.Genuine capacity line
  replied : ∀ client, r.lastRequest? client =
    (lastOf? client (line.take r.lastExec)).map AssignedRequest.request
  inLine : ∀ a ∈ r.queued, a ∈ line
  due : ∀ a ∈ r.queued, NewOrForgotten capacity (line.take r.lastExec) a.request
  past : RepeatsForgotten capacity (line.take r.lastExec)

namespace Recalls

variable {capacity : Nat} {line : List AssignedRequest} {r other : Record}

theorem of_empty (log : r.log = []) (state : r.state = []) (queue : r.queue = [])
    (replied : ∀ client, r.lastRequest? client = none) : r.Recalls capacity line := by
  have nothing : r.lastExec = 0 := by simp [lastExec, logged, log, largestSeq]
  refine ⟨.of_empty log state, ?_, ?_, ?_, ?_⟩
  · intro client
    rw [replied, nothing]
    rfl
  · simp [queued, queue]
  · simp [queued, queue]
  · rw [nothing]
    exact .nil capacity

theorem new (clients : Nat) : (Record.new clients).Recalls capacity line := by
  refine .of_empty rfl rfl rfl fun client => ?_
  rw [lastRequest?, Record.new, List.getElem?_replicate]
  split <;> rfl

/-- Only the history and the requests in the queue count. -/
theorem of_eq (recalls : r.Recalls capacity line) (logged : other.logged = r.logged)
    (state : other.state = r.state)
    (replied : ∀ client, other.lastRequest? client = r.lastRequest? client)
    (queued : ∀ a ∈ other.queued, a ∈ r.queued) : other.Recalls capacity line := by
  have lastExec : other.lastExec = r.lastExec := congrArg largestSeq logged
  refine ⟨recalls.genuine.congr logged state, ?_, ?_, ?_, ?_⟩
  · intro client
    rw [replied, recalls.replied, lastExec]
  · exact fun a member => recalls.inLine a (queued a member)
  · rw [lastExec]
    exact fun a member => recalls.due a (queued a member)
  · rw [lastExec]
    exact recalls.past

theorem pruneExecuted (recalls : r.Recalls capacity line) :
    r.pruneExecuted.Recalls capacity line := by
  refine recalls.of_eq rfl rfl (fun _ => rfl) fun a member => ?_
  obtain ⟨e, kept, rfl⟩ := List.mem_map.mp member
  exact List.mem_map_of_mem (List.mem_filter.mp kept).1

theorem sanitize {clients : Nat} (known : ∀ a ∈ line, a.request.client < clients)
    (recalls : r.Recalls capacity line) (pendingCapacity : Nat) :
    (r.sanitize clients pendingCapacity capacity).Recalls capacity line := by
  refine recalls.of_eq ?_ rfl ?_ ?_
  · obtain ⟨n, _, log, _⟩ := recalls.genuine
    have whole : (r.sanitize clients pendingCapacity capacity).logged =
        lastEntries capacity r.logged := map_lastEntries ..
    rw [whole, log, lastEntries_lastEntries]
  · intro client
    rw [lastRequest?, Record.sanitize, getElem?_join_resize]
    split
    · rfl
    · next unknown =>
        rw [recalls.replied, lastOf?_eq_none]
        · rfl
        · intro a member isClient
          exact unknown (isClient ▸ known a (List.mem_of_mem_take member))
  · intro a member
    obtain ⟨e, kept, rfl⟩ := List.mem_map.mp member
    exact List.mem_map_of_mem (List.mem_of_mem_take kept)

variable (room : 0 < capacity) (numbered : Numbered line)
include room numbered

theorem mono (recalls : r.Recalls capacity line) (more : List AssignedRequest) :
    r.Recalls capacity (line ++ more) := by
  have same : (line ++ more).take r.lastExec = line.take r.lastExec :=
    List.take_append_of_le_length (recalls.genuine.upTo_lastExec room numbered).1
  refine ⟨recalls.genuine.append more, ?_, ?_, ?_, ?_⟩
  · rw [same]
    exact recalls.replied
  · exact fun a member => List.mem_append_left _ (recalls.inLine a member)
  · rw [same]
    exact recalls.due
  · rw [same]
    exact recalls.past

/-- A request that counts as new is new or forgotten. -/
theorem newOrForgotten_of_unexecuted (recalls : r.Recalls capacity line) {q : ClientRequest}
    (unexecuted : r.executed q = false) :
    NewOrForgotten capacity (line.take r.lastExec) q := by
  obtain ⟨reached, _, _⟩ := recalls.genuine.upTo_lastExec room numbered
  intro b inDone sameOrigin
  obtain ⟨inLine, upTo⟩ := (numbered.mem_take_iff _).mp inDone
  have origin := sameOrigin
  simp only [ClientRequest.sameOrigin, Bool.and_eq_true, decide_eq_true_eq] at origin
  have neither := mt executed_iff.mpr (Bool.eq_false_iff.mp unexecuted)
  rw [not_or] at neither
  constructor
  · have old : b ∉ r.logged := fun logged => neither.2 ⟨b, logged, sameOrigin⟩
    have recent : ¬ r.lastExec < b.seq + capacity := fun recent =>
      old ((recalls.genuine.mem_logged_iff room numbered).mpr ⟨inLine, upTo, recent⟩)
    rw [List.length_take, Nat.min_eq_left reached]
    omega
  · obtain ⟨m, member, last, ofClient, behind⟩ := (numbered.take _).exists_lastOf? inDone
    have reply : r.lastRequest? q.client = some m.request := by
      rw [recalls.replied, ← origin.1, last]
      rfl
    have earlier : m.request.timestamp < b.request.timestamp := by
      by_contra late
      exact neither.1 ⟨m.request, reply, by omega⟩
    refine ⟨m, member, Nat.lt_of_le_of_ne behind fun same => ?_, ofClient, earlier⟩
    rw [(numbered.take _).eq_of_seq_eq inDone member same] at earlier
    exact Nat.lt_irrefl _ earlier

/-- A record may queue requests of the line that count as new. -/
theorem enqueue (recalls : r.Recalls capacity line) (more : List QueueEntry) (seq : Nat)
    (inLine : ∀ e ∈ more, e.request ∈ line)
    (unexecuted : ∀ e ∈ more, r.executed e.request.request = false) :
    ({ r with queue := r.queue ++ more, seq := seq } : Record).Recalls capacity line where
  genuine := recalls.genuine.congr rfl rfl
  replied := recalls.replied
  inLine := by
    intro a member
    rw [queued, List.map_append] at member
    rcases List.mem_append.mp member with old | new
    · exact recalls.inLine a old
    · obtain ⟨e, added, rfl⟩ := List.mem_map.mp new
      exact inLine e added
  due := by
    intro a member
    rw [queued, List.map_append] at member
    rcases List.mem_append.mp member with old | new
    · exact recalls.due a old
    · obtain ⟨e, added, rfl⟩ := List.mem_map.mp new
      exact recalls.newOrForgotten_of_unexecuted room numbered (unexecuted e added)
  past := recalls.past

/-- A record may take over the history of another one if it drops what it now counts as executed. -/
theorem adopt (recalls : r.Recalls capacity line) {source : Record}
    (ofSource : source.Recalls capacity line) (conflict : Bool) :
    ({ r with
        conflict := conflict
        state := source.state
        log := source.log
        replies := source.replies } : Record).pruneExecuted.Recalls capacity line := by
  have emptied : ({ source with queue := [] } : Record).Recalls capacity line :=
    ofSource.of_eq rfl rfl (fun _ => rfl) (by simp [queued])
  have kept := emptied.enqueue room numbered
    (r.queue.filter fun e => !source.executed e.request.request) 0
    (fun e kept => recalls.inLine _ (List.mem_map_of_mem (List.mem_filter.mp kept).1))
    (fun e kept => Bool.not_eq_true' .. ▸ (List.mem_filter.mp kept).2)
  exact kept.of_eq rfl rfl (fun _ => rfl) fun a member => member

/-- Executing the next request. -/
theorem apply (recalls : r.Recalls capacity line) {a : AssignedRequest} (queued : a ∈ r.queued)
    (next : a.seq = r.lastExec + 1) (executedBy : NodeSet) :
    (r.apply a executedBy capacity).Recalls capacity line := by
  have inLine := recalls.inLine a queued
  have genuine := recalls.genuine.apply room numbered inLine next executedBy
  obtain ⟨reached, _, _⟩ := recalls.genuine.upTo_lastExec room numbered
  obtain ⟨_, found⟩ := numbered.getElem?_of_mem inLine
  rw [next, Nat.add_sub_cancel] at found
  have longer : line.take (r.apply a executedBy capacity).lastExec =
      line.take r.lastExec ++ [a] := by
    rw [lastExec_apply room next, List.take_add_one, found]
    rfl
  -- Nothing of the same origin stays in the queue, so what stays is as new as it was.
  have stays : ∀ b ∈ (r.apply a executedBy capacity).queued,
      b ∈ r.queued ∧ b.request.sameOrigin a.request = false := by
    intro b member
    obtain ⟨e, kept, rfl⟩ := List.mem_map.mp member
    obtain ⟨old, other⟩ := List.mem_filter.mp kept
    exact ⟨List.mem_map_of_mem old, by simpa using other⟩
  refine ⟨genuine, ?_, ?_, ?_, ?_⟩
  · intro client
    rw [lastRequest?_apply, longer, lastOf?_append_singleton, recalls.replied]
    split <;> rfl
  · exact fun b member => recalls.inLine b (stays b member).1
  · intro b member
    rw [longer]
    exact (recalls.due b (stays b member).1).append_singleton (stays b member).2
  · rw [longer]
    exact recalls.past.append_singleton (recalls.due a queued)

end Recalls

end Record

/-! ### In a round -/

namespace Agreement

variable {site : Site} {s : Agreement} {line given : List AssignedRequest} {r r' : Record}

/-- Moving requests on, a record keeps recalling a line that what it assigns stands on. -/
theorem Change.recalls (room : 0 < site.cluster.logCapacity) (numbered : Numbered line)
    (others : ∀ k, (s.recordOf k).Recalls site.cluster.logCapacity line) (onLine : given ⊆ line)
    (change : Change site s given r r')
    (recalls : r.Recalls site.cluster.logCapacity line) :
    r'.Recalls site.cluster.logCapacity line := by
  cases change with
  | flag conflict => exact recalls.of_eq rfl rfl (fun _ => rfl) fun _ member => member
  | @adopt holder _ _ => exact recalls.adopt room numbered (others holder) false
  | assign settled fresh =>
      refine recalls.enqueue room numbered _ _ ?_ ?_
      · intro e member
        obtain ⟨a, new, rfl⟩ := List.mem_map.mp member
        exact onLine new
      · intro e member
        obtain ⟨a, new, rfl⟩ := List.mem_map.mp member
        exact (fresh a new).2.2
  | @accept _ primary a _ _ proposed acceptable =>
      refine recalls.enqueue room numbered _ r.seq ?_ ?_
      · intro e member
        rw [List.mem_singleton.mp member]
        exact (others primary).inLine a proposed
      · intro e member
        rw [List.mem_singleton.mp member]
        exact (acceptsProposal_iff.mp acceptable).2.2.2
  | prepare chosen =>
      refine recalls.of_eq rfl rfl (fun _ => rfl) fun a member => ?_
      rwa [Record.queued, map_request_status] at member
  | execute next quorum =>
      obtain ⟨queued, number, _⟩ := of_nextCommitted next
      exact recalls.apply room numbered queued number _
  | remember supporters =>
      exact recalls.of_eq (map_request_executedBy _ _) rfl (fun _ => rfl) fun _ member => member
  | drop keep =>
      refine recalls.of_eq rfl rfl (fun _ => rfl) fun a member => ?_
      obtain ⟨e, kept, rfl⟩ := List.mem_map.mp member
      exact List.mem_map_of_mem (List.mem_filter.mp kept).1
  | prune => exact recalls.pruneExecuted

/-- Entering a view, a record keeps recalling the line. -/
theorem Entry.recalls (room : 0 < site.cluster.logCapacity) (numbered : Numbered line)
    (others : ∀ k, (s.recordOf k).Recalls site.cluster.logCapacity line)
    (entry : Entry site s r r')
    (recalls : r.Recalls site.cluster.logCapacity line) :
    r'.Recalls site.cluster.logCapacity line := by
  cases entry with
  | note view => exact recalls.of_eq rfl rfl (fun _ => rfl) fun _ member => member
  | renew requests => exact recalls.of_eq rfl rfl (fun _ => rfl) (by simp [Record.queued])
  | change change => exact change.recalls room numbered others (List.nil_subset _) recalls
  | lead => exact recalls.of_eq rfl rfl (fun _ => rfl) fun _ member => member
  | @copy primary _ _ =>
      exact (others primary).of_eq rfl rfl (fun _ => rfl) fun _ member => member

end Agreement

/-! ### In a run -/

namespace Ensemble

variable {c : Cluster}

/-- As long as all clients on the line are known, records recall it. -/
theorem upheld_recalls (configured : c.Configured) :
    Upheld c fun line r => (∀ a ∈ line, a.request.client < c.clients) →
      r.Recalls c.logCapacity line where
  new _ _ _ := .new _
  longer _ _ _ numbered recalls known :=
    (recalls fun a member => known a (List.mem_append_left _ member)).mono
      configured.logCapacity_pos numbered _
  buffer _ _ _ recalls known :=
    (recalls known).of_eq rfl rfl (fun _ => rfl) fun _ member => member
  sanitize _ _ recalls known := (recalls known).sanitize known _
  entry _ _ _ _ _ numbered others entry recalls known :=
    entry.recalls configured.logCapacity_pos numbered (fun j => others j known) (recalls known)
  change _ _ _ _ _ _ numbered onLine others change recalls known :=
    change.recalls configured.logCapacity_pos numbered (fun j => others j known) onLine
      (recalls known)

/-- Replicas that are all told one view, or none, execute a request a second time only after they
have forgotten the first time: as long as no number comes close to the bound, the logs and lists of
all replicas show beginnings of one line, and where this has two requests of one origin, the first
is more than a whole log back, and in between the client has had a request with a smaller timestamp
executed.  So a client whose timestamps rise along the line has each request executed once. -/
theorem repeated_only_if_forgotten {c : Cluster} {v : NodeId} {actions : List Action}
    (configured : c.Configured) (enough : 3 * c.faults < c.size)
    (keeps : ∀ action ∈ actions, action.KeepsTo v)
    (known : ∀ q ∈ (run c actions).submitted, q.client < c.clients)
    (small : ∀ m ∈ (run c actions).sent, m.2.seqsBelow c.seqLimit = true) :
    ∃ line : List AssignedRequest, Numbered line ∧
      (∀ a ∈ line, a.request ∈ (run c actions).submitted) ∧
      ∀ (k : NodeId) (s : Agreement), (run c actions).replicas[k]? = some s →
        (∀ a ∈ (s.own (c.siteOf k)).logged, a ∈ line) ∧
        (s.own (c.siteOf k)).lastExec ≤ line.length ∧
        (s.own (c.siteOf k)).state = stateAfter (line.take (s.own (c.siteOf k)).lastExec) ∧
        ∀ a ∈ line.take (s.own (c.siteOf k)).lastExec, ∀ b ∈ line,
          b.seq < a.seq → b.request.sameOrigin a.request = true →
          b.seq + c.logCapacity < a.seq ∧
            ∃ m ∈ line, b.seq < m.seq ∧ m.seq < a.seq ∧
              m.request.client = b.request.client ∧
              m.request.timestamp < b.request.timestamp := by
  have room := configured.logCapacity_pos
  obtain ⟨line, keeping⟩ := steadyWith_run configured enough (upheld_recalls configured) keeps small
  have numbered := keeping.steady.ofView.numbered
  have asked := keeping.steady.ofView.asked
  refine ⟨line, numbered, asked, fun k s found => ?_⟩
  have own : (s.own (c.siteOf k)).Recalls c.logCapacity line :=
    (upheld_recalls configured).recordOf (keeping.tables k s found) k
      fun a member => known _ (asked a member)
  obtain ⟨reached, _, state⟩ := own.genuine.upTo_lastExec room numbered
  refine ⟨fun a => own.genuine.mem_line, reached, state,
    fun a executed b inLine before sameOrigin => ?_⟩
  have upTo := ((numbered.mem_take_iff _).mp executed).2
  have executedBefore : b ∈ line.take (s.own (c.siteOf k)).lastExec :=
    (numbered.mem_take_iff _).mpr ⟨inLine, by omega⟩
  obtain ⟨old, m, member, between⟩ :=
    own.past.of_lt (numbered.take _) executed executedBefore before sameOrigin
  exact ⟨old, m, List.mem_of_mem_take member, between⟩

/-- A single replica of two clients. -/
def loneCluster : Cluster :=
  { Cluster.new 1 0 with clients := 2 }

def timedRequest (client : ClientId) (timestamp : Nat) : ClientRequest :=
  { client := client, timestamp := timestamp, operation := .append timestamp }

/-- The requests that arrive before each round.  The first round begins the view; then client 0 goes
back behind its own timestamps, client 1 fills the log, and the first request comes again. -/
def repeatingArrivals : List (List ClientRequest) :=
  [ [], [timedRequest 0 5, timedRequest 0 3], [timedRequest 1 1, timedRequest 1 2],
    [timedRequest 1 3, timedRequest 1 4], [timedRequest 1 5, timedRequest 1 6],
    [timedRequest 0 5] ]

def repeatingRun : List Action :=
  repeatingArrivals.flatMap fun requests => requests.map (.submit 0) ++ [.round 0 (reporting 0)]

theorem keepsTo_repeatingRun : ∀ action ∈ repeatingRun, action.KeepsTo 0 := by
  simp [repeatingRun, repeatingArrivals, Action.KeepsTo, reporting]

theorem known_repeatingRun :
    ∀ q ∈ (run loneCluster repeatingRun).submitted, q.client < loneCluster.clients := by
  have submitted : (run loneCluster repeatingRun).submitted = repeatingArrivals.flatten := by cbv
  rw [submitted]
  decide

/-- The repeating run executes the first request again, as number 9: it has left the log, which
keeps 6 entries, and the last reply to its client is to an earlier timestamp. -/
theorem repeating_run_forgets :
    (run loneCluster repeatingRun).sent.map (fun m => (m.2.lastExec, m.2.state)) =
        [ (0, []), (2, [5, 3]), (4, [5, 3, 1, 2]), (6, [5, 3, 1, 2, 3, 4]),
          (8, [5, 3, 1, 2, 3, 4, 5, 6]), (9, [5, 3, 1, 2, 3, 4, 5, 6, 5]) ] ∧
      ∃ line : List AssignedRequest, Numbered line ∧
        ∃ s, (run loneCluster repeatingRun).replicas[0]? = some s ∧
          (∀ a ∈ (s.own (loneCluster.siteOf 0)).logged, a ∈ line) ∧
          (s.own (loneCluster.siteOf 0)).state =
            stateAfter (line.take (s.own (loneCluster.siteOf 0)).lastExec) ∧
          ∀ a ∈ line.take (s.own (loneCluster.siteOf 0)).lastExec, ∀ b ∈ line, b.seq < a.seq →
            b.request.sameOrigin a.request = true → b.seq + 6 < a.seq := by
  have small : (run loneCluster repeatingRun).sent.all
      (fun m => m.2.seqsBelow loneCluster.seqLimit) = true := by cbv
  have present : ((run loneCluster repeatingRun).replicas[0]?).isSome = true := by cbv
  obtain ⟨s, found⟩ := Option.isSome_iff_exists.mp present
  obtain ⟨line, numbered, _, replicas⟩ :=
    repeated_only_if_forgotten (.withClients (.new 1 0) 2) (by decide) keepsTo_repeatingRun
      known_repeatingRun (List.all_eq_true.mp small)
  obtain ⟨shown, _, state, apart⟩ := replicas 0 s found
  exact ⟨by cbv, line, numbered, s, found, shown, state,
    fun a executed b inLine before same => (apart a executed b inLine before same).1⟩

/-- A replica that is told one view throughout and never flushes executes one request of a known
client twice. -/
theorem repeating_run_executes_twice :
    (∀ action ∈ repeatingRun, action.KeepsTo 0) ∧
      (∀ q ∈ (run loneCluster repeatingRun).submitted, q.client < loneCluster.clients) ∧
      (∀ m ∈ (run loneCluster repeatingRun).events, m.2 ≠ .localFlush) ∧
      ∃ earlier later : Record, (0, earlier) ∈ (run loneCluster repeatingRun).sent ∧
        (0, later) ∈ (run loneCluster repeatingRun).sent ∧
        ∃ b ∈ earlier.logged, ∃ a ∈ later.logged, b.request = a.request ∧ b.seq < a.seq := by
  have events : (run loneCluster repeatingRun).events =
      List.replicate 9 (0, .requestCommitted) := by cbv
  have shown : ∀ seq ∈ [1, 9], ∃ r, (0, r) ∈ (run loneCluster repeatingRun).sent ∧
      { request := timedRequest 0 5, view := .id 0, seq := seq } ∈ r.logged := by
    have found : [1, 9].all (fun seq => (run loneCluster repeatingRun).sent.any fun m =>
        m.1 = 0 && m.2.logged.contains
          { request := timedRequest 0 5, view := .id 0, seq := seq }) = true := by cbv
    intro seq member
    obtain ⟨⟨k, r⟩, inSent, isShown⟩ := List.any_eq_true.mp (List.all_eq_true.mp found seq member)
    simp only [Bool.and_eq_true, decide_eq_true_eq, List.contains_iff_mem] at isShown
    exact ⟨r, isShown.1 ▸ inSent, isShown.2⟩
  obtain ⟨earlier, sentEarlier, first⟩ := shown 1 (by simp)
  obtain ⟨later, sentLater, again⟩ := shown 9 (by simp)
  refine ⟨keepsTo_repeatingRun, known_repeatingRun, fun m member => ?_, earlier, later,
    sentEarlier, sentLater, _, first, _, again, rfl, by decide⟩
  rw [events] at member
  rw [List.eq_of_mem_replicate member]
  exact Event.noConfusion

end Ensemble

end QuorumList
