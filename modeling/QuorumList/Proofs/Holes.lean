import QuorumList.Proofs.Votes

/-!
Holes in the sequence of a primary.

Requests are executed in the order of their numbers.  So when a primary has given out a number, has
not executed it, and has nothing queued for it any more, it executes nothing from there on.

A request leaves the queue when it counts as executed, and that it also does when its client has a
reply to another request with the same or a later timestamp.  So the primary leaves a hole when a
client submits a request with an earlier timestamp late: it gets a larger number, and once the
request before it is executed, it is dropped.  `Record.Unbroken` says that there is no other reason
for a hole; the replies come from executed requests of the line, which is what `Record.Accounts`
says.
-/
namespace QuorumList

namespace Record

/-- The client of a request has had one with the same or a later timestamp executed. -/
def Superseded (line : List AssignedRequest) (r : Record) (a : AssignedRequest) : Prop :=
  ∃ b ∈ line, b.seq ≤ r.lastExec ∧ b.request.client = a.request.client ∧
    a.request.timestamp ≤ b.request.timestamp

/-- A request of the line that is not executed yet is queued, unless it is superseded. -/
def Unbroken (line : List AssignedRequest) (r : Record) : Prop :=
  ∀ a ∈ line, r.lastExec < a.seq → a ∈ r.queued ∨ r.Superseded line a

theorem Superseded.mono {line longer : List AssignedRequest} {r other : Record}
    {a : AssignedRequest} (superseded : r.Superseded line a) (wide : line ⊆ longer)
    (reached : r.lastExec ≤ other.lastExec) : other.Superseded longer a := by
  obtain ⟨b, inLine, executed, rest⟩ := superseded
  exact ⟨b, wide inLine, Nat.le_trans executed reached, rest⟩

/-- Only the log and the queue count. -/
theorem Unbroken.of_eq {line : List AssignedRequest} {r other : Record}
    (unbroken : r.Unbroken line) (logged : other.logged = r.logged)
    (queued : other.queued = r.queued) : other.Unbroken line := by
  have same : other.lastExec = r.lastExec := by
    rw [lastExec, logged]
    rfl
  unfold Unbroken Superseded
  rw [same, queued]
  exact unbroken

/-- The history of a record is that of a line, it queues requests of the line, and it has replied to
requests of the line that it has executed. -/
structure Accounts (capacity : Nat) (line : List AssignedRequest) (r : Record) : Prop where
  genuine : r.Genuine capacity line
  inLine : ∀ a ∈ r.queued, a ∈ line
  replied : ∀ client last, r.lastRequest? client = some last →
    last.client = client ∧ ∃ b ∈ line, b.seq ≤ r.lastExec ∧ b.request = last

namespace Accounts

variable {capacity : Nat} {line : List AssignedRequest} {r other : Record}

theorem new (clients : Nat) : (Record.new clients).Accounts capacity line where
  genuine := .of_empty rfl rfl
  inLine _ queued := absurd queued List.not_mem_nil
  replied client last found := by
    rw [lastRequest?, Record.new, List.getElem?_replicate] at found
    split at found <;> simp at found

/-- Only the history and the requests in the queue count. -/
theorem of_eq (accounts : r.Accounts capacity line) (logged : other.logged = r.logged)
    (state : other.state = r.state)
    (replied : ∀ client last, other.lastRequest? client = some last →
      r.lastRequest? client = some last)
    (queued : ∀ a ∈ other.queued, a ∈ line) : other.Accounts capacity line where
  genuine := accounts.genuine.congr logged state
  inLine := queued
  replied client last found := by
    rw [lastExec, logged]
    exact accounts.replied client last (replied client last found)

/-- A record may drop requests from its queue. -/
theorem of_fewer (accounts : r.Accounts capacity line) (logged : other.logged = r.logged)
    (state : other.state = r.state) (replies : other.replies = r.replies)
    (queued : ∀ a ∈ other.queued, a ∈ r.queued) : other.Accounts capacity line := by
  refine accounts.of_eq logged state (fun client last found => ?_)
    fun a member => accounts.inLine a (queued a member)
  rwa [lastRequest?, replies] at found

theorem longer (accounts : r.Accounts capacity line) (more : List AssignedRequest) :
    r.Accounts capacity (line ++ more) where
  genuine := accounts.genuine.append more
  inLine a queued := List.mem_append_left _ (accounts.inLine a queued)
  replied client last found := by
    obtain ⟨ofClient, b, inLine, executed⟩ := accounts.replied client last found
    exact ⟨ofClient, b, List.mem_append_left _ inLine, executed⟩

theorem sanitize (accounts : r.Accounts capacity line) (clients pendingCapacity : Nat) :
    (r.sanitize clients pendingCapacity capacity).Accounts capacity line := by
  refine accounts.of_eq ?_ rfl ?_ ?_
  · obtain ⟨n, _, log, _⟩ := accounts.genuine
    have whole : (r.sanitize clients pendingCapacity capacity).logged =
        lastEntries capacity r.logged := map_lastEntries ..
    rw [whole, log, lastEntries_lastEntries]
  · intro client last found
    rw [lastRequest?, Record.sanitize, getElem?_join_resize] at found
    split at found
    · exact found
    · contradiction
  · intro a member
    obtain ⟨e, kept, rfl⟩ := List.mem_map.mp member
    exact accounts.inLine _ (List.mem_map_of_mem (List.mem_of_mem_take kept))

theorem pruneExecuted (accounts : r.Accounts capacity line) :
    r.pruneExecuted.Accounts capacity line :=
  accounts.of_fewer rfl rfl rfl (List.filter_sublist.map _).subset

/-- A record may take over the history of another one. -/
theorem adopt (accounts : r.Accounts capacity line) {source : Record}
    (ofSource : source.Accounts capacity line) (conflict : Bool) :
    ({ r with
        conflict := conflict
        state := source.state
        log := source.log
        replies := source.replies } : Record).Accounts capacity line :=
  ofSource.of_eq rfl rfl (fun _ _ found => found) accounts.inLine

/-- Executing the next request. -/
theorem apply (room : 0 < capacity) (numbered : Numbered line) (accounts : r.Accounts capacity line)
    {a : AssignedRequest} (queued : a ∈ r.queued) (next : a.seq = r.lastExec + 1)
    (executedBy : NodeSet) : (r.apply a executedBy capacity).Accounts capacity line where
  genuine := accounts.genuine.apply room numbered (accounts.inLine a queued) next executedBy
  inLine b member := accounts.inLine b ((List.filter_sublist.map _).subset member)
  replied client last found := by
    rw [lastExec_apply room next]
    rw [lastRequest?_apply] at found
    split at found
    · next ofClient =>
        obtain rfl := Option.some.inj found
        exact ⟨ofClient, a, accounts.inLine a queued, Nat.le_of_eq next, rfl⟩
    · obtain ⟨ofClient, b, inLine, executed, rest⟩ := accounts.replied client last found
      exact ⟨ofClient, b, inLine, Nat.le_succ_of_le executed, rest⟩

/-- What counts as executed is superseded: there is a reply, or the log shows the request. -/
theorem superseded_of_executed (room : 0 < capacity) (numbered : Numbered line)
    (accounts : r.Accounts capacity line) {a : AssignedRequest}
    (executed : r.executed a.request = true) : r.Superseded line a := by
  rcases executed_iff.mp executed with ⟨last, found, notLater⟩ | ⟨b, logged, sameOrigin⟩
  · obtain ⟨ofClient, b, inLine, upTo, rfl⟩ := accounts.replied _ last found
    exact ⟨b, inLine, upTo, ofClient, notLater⟩
  · obtain ⟨inLine, upTo, _⟩ := (accounts.genuine.mem_logged_iff room numbered).mp logged
    simp only [ClientRequest.sameOrigin, Bool.and_eq_true, decide_eq_true_eq] at sameOrigin
    exact ⟨b, inLine, upTo, sameOrigin.1, Nat.le_of_eq sameOrigin.2.symm⟩

end Accounts

end Record

namespace Agreement

variable {site : Site} {s : Agreement} {line given : List AssignedRequest} {r r' : Record}
  {capacity : Nat} {view : View} {primary : NodeId} {answers : Answers}

/-! ### What happens to records -/

theorem Change.accounts (room : 0 < site.cluster.logCapacity) (numbered : Numbered line)
    (others : ∀ k, (s.recordOf k).Accounts site.cluster.logCapacity line) (onLine : given ⊆ line)
    (change : Change site s given r r') (accounts : r.Accounts site.cluster.logCapacity line) :
    r'.Accounts site.cluster.logCapacity line := by
  have same : ∀ a ∈ r.queued, a ∈ line := accounts.inLine
  cases change with
  | flag conflict => exact accounts.of_fewer rfl rfl rfl fun _ queued => queued
  | @adopt holder _ _ => exact (accounts.adopt (others holder) false).pruneExecuted
  | assign settled fresh =>
      refine accounts.of_eq rfl rfl (fun _ _ found => found) fun a member => ?_
      rw [Record.queued, List.map_append, List.map_map] at member
      rcases List.mem_append.mp member with old | new
      · exact same a old
      · obtain ⟨b, isGiven, rfl⟩ := List.mem_map.mp new
        exact onLine isGiven
  | @accept _ primary a _ _ proposed acceptable =>
      refine accounts.of_eq rfl rfl (fun _ _ found => found) fun b member => ?_
      rw [Record.queued, List.map_append] at member
      rcases List.mem_append.mp member with old | new
      · exact same b old
      · rw [List.mem_singleton.mp new]
        exact (others primary).inLine a proposed
  | prepare chosen =>
      refine accounts.of_fewer rfl rfl rfl fun a member => ?_
      rwa [Record.queued, map_request_status] at member
  | execute next quorum =>
      obtain ⟨queued, number, _⟩ := of_nextCommitted next
      exact accounts.apply room numbered queued number _
  | remember supporters =>
      exact accounts.of_fewer (map_request_executedBy _ _) rfl rfl fun _ queued => queued
  | drop keep => exact accounts.of_fewer rfl rfl rfl (List.filter_sublist.map _).subset
  | prune => exact accounts.pruneExecuted

theorem Entry.accounts (room : 0 < site.cluster.logCapacity) (numbered : Numbered line)
    (others : ∀ k, (s.recordOf k).Accounts site.cluster.logCapacity line)
    (entry : Entry site s r r') (accounts : r.Accounts site.cluster.logCapacity line) :
    r'.Accounts site.cluster.logCapacity line := by
  cases entry with
  | note view => exact accounts.of_fewer rfl rfl rfl fun _ queued => queued
  | renew requests => exact accounts.of_fewer rfl rfl rfl (by simp [Record.queued])
  | change change => exact change.accounts room numbered others (List.nil_subset _) accounts
  | lead => exact accounts.of_fewer rfl rfl rfl fun _ queued => queued
  | @copy primary _ _ =>
      exact (others primary).of_fewer rfl rfl rfl fun _ queued => queued

/-! ### Progress -/

theorem commitUpTo_add (site : Site) (s : Agreement) (count more : Nat) :
    (s.commitUpTo site (count + more)).1 =
      ((s.commitUpTo site count).1.commitUpTo site more).1 := by
  induction count generalizing s with
  | zero => rw [Nat.zero_add, commitUpTo]
  | succ count ih =>
      rcases commitUpTo_eq_or site s with stops | ⟨b, goesOn⟩
      · rw [stops, stops, stops]
      · rw [Nat.succ_add, goesOn, goesOn, ih]

/-- Executing requests, a replica does not fall back. -/
theorem lastExec_le_commitUpTo (room : 0 < site.cluster.logCapacity)
    (inTable : site.me < s.records.length) (bound : Nat) :
    (s.own site).lastExec ≤ ((s.commitUpTo site bound).1.own site).lastExec := by
  refine (commitUpTo_induction (P := fun t => site.me < t.records.length ∧
    (s.own site).lastExec ≤ (t.own site).lastExec) ?_ bound ⟨inTable, Nat.le_refl _⟩).2
  rintro t a ⟨inT, reached⟩ next _
  rw [length_records_updateOwn, own_updateOwn inT,
    Record.lastExec_apply room (of_nextCommitted next).2.1]
  exact ⟨inT, Nat.le_succ_of_le reached⟩

theorem lastExec_commitUpTo_mono (room : 0 < site.cluster.logCapacity)
    (inTable : site.me < s.records.length) {count bound : Nat} (upTo : count ≤ bound) :
    ((s.commitUpTo site count).1.own site).lastExec ≤
      ((s.commitUpTo site bound).1.own site).lastExec := by
  obtain ⟨more, rfl⟩ := Nat.exists_eq_add_of_le upTo
  rw [commitUpTo_add]
  exact lastExec_le_commitUpTo room (by rwa [length_records_commitUpTo]) more

theorem lastExec_own_tidy (view : View) :
    ((s.tidy site view).own site).lastExec = (s.own site).lastExec := by
  unfold tidy
  refine (apply_own_updateOwn Record.lastExec fun r => ?_).trans
    (apply_own_updateOwn Record.lastExec fun r => ?_)
  · dsimp only
    split <;> rfl
  · rw [Record.lastExec, Record.logged, map_request_executedBy]
    rfl

/-- Among genuine records a replica adopts only a history that is ahead of its own. -/
theorem lastExec_le_findCommonHistory (room : 0 < capacity) (numbered : Numbered line)
    (inTable : site.me < s.records.length) (genuine : ∀ k, (s.recordOf k).Genuine capacity line) :
    (s.own site).lastExec ≤ ((s.findCommonHistory site).own site).lastExec := by
  cases chosen : s.adoptable site with
  | none =>
      rw [findCommonHistory, chosen, own_updateOwn inTable]
      exact Nat.le_refl _
  | some common =>
      obtain ⟨state, holder⟩ := common
      cases kept : s.keeps site holder with
      | true =>
          rw [own_findCommonHistory_of_keeps inTable chosen kept]
          exact Nat.le_refl _
      | false =>
          rw [own_findCommonHistory_of_not_keeps inTable chosen kept]
          exact Nat.le_of_lt (lt_lastExec_of_not_keeps kept
            ((genuine site.me).consistentWith room numbered (genuine holder)))

/-! ### Moving requests on -/

section Proceeding

variable (inTable : site.me < s.records.length)
include inTable

/-- What the primary assigns in a round is queued before anything is executed. -/
theorem queued_prepared_of_assigned {a : AssignedRequest}
    (assigned : a ∈ s.proceedAssigns site answers view primary) :
    a ∈ ((s.prepared site answers view primary).own site).queued := by
  have inFound : site.me < (s.findCommonHistory site).records.length := by
    rwa [length_records_findCommonHistory]
  unfold proceedAssigns at assigned
  dsimp only at assigned
  split at assigned
  · next working =>
      rw [Bool.and_eq_true, Bool.and_eq_true, decide_eq_true_eq] at working
      obtain ⟨_, rfl, mayAssign⟩ := working
      unfold prepared acceptProposals prepareToCommit
      dsimp only
      rw [mayAssign, if_pos rfl, if_pos (by simp), assign_eq inFound]
      rw [own_updateOwn (by rwa [length_records_updateOwn]), own_updateOwn inFound]
      rw [Record.queued, map_request_status, List.map_append, List.map_map]
      exact List.mem_append_right _ (List.mem_map.mpr ⟨a, assigned, rfl⟩)
  · contradiction

/-- A replica that goes on in a view does not fall back, and what it counts as executed on the way
is superseded in the end. -/
theorem superseded_proceed (room : 0 < site.cluster.logCapacity)
    (settled : (s.own site).viewChanged = false)
    (longer : Numbered (line ++ s.proceedAssigns site answers view primary))
    (accounts : ∀ k, (s.recordOf k).Accounts site.cluster.logCapacity line)
    {count : Nat} (upTo : count ≤ ((s.prepared site answers view primary).own site).queue.length)
    {a : AssignedRequest}
    (executed : (((s.prepared site answers view primary).commitUpTo site count).1.own site).executed
      a.request = true) :
    ((s.proceed site answers view primary).1.own site).Superseded
      (line ++ s.proceedAssigns site answers view primary) a := by
  have wide := fun k => (accounts k).longer (s.proceedAssigns site answers view primary)
  have inPrepared : site.me < (s.prepared site answers view primary).records.length := by
    rwa [length_records_prepared]
  have working : ((s.findCommonHistory site).own site).viewChanged = false :=
    viewChanged_own_findCommonHistory.trans settled
  have reached : Reached site (Change site s (s.proceedAssigns site answers view primary)) s
      ((s.prepared site answers view primary).commitUpTo site count).1 :=
    (reached_prepareToCommit inTable working).commitUpTo inTable count
  have atCount := reached.own_of_keeps (wide site.me) fun r r' change =>
    change.accounts room longer wide (List.subset_append_right ..)
  refine (atCount.superseded_of_executed room longer executed).mono (fun _ h => h) ?_
  rw [proceed_of_settled settled, lastExec_own_tidy]
  exact lastExec_commitUpTo_mono room inPrepared upTo

theorem lastExec_le_proceed (room : 0 < site.cluster.logCapacity)
    (settled : (s.own site).viewChanged = false) (numbered : Numbered line)
    (genuine : ∀ k, (s.recordOf k).Genuine site.cluster.logCapacity line) :
    (s.own site).lastExec ≤ ((s.proceed site answers view primary).1.own site).lastExec := by
  have inPrepared : site.me < (s.prepared site answers view primary).records.length := by
    rwa [length_records_prepared]
  calc (s.own site).lastExec
      ≤ ((s.findCommonHistory site).own site).lastExec :=
        lastExec_le_findCommonHistory room numbered inTable genuine
    _ = ((s.prepared site answers view primary).own site).lastExec := by
        rw [Record.lastExec, Record.lastExec, (queuesMore_prepared inTable view primary).logged]
    _ ≤ (((s.prepared site answers view primary).commit site).1.own site).lastExec :=
        lastExec_le_commitUpTo room inPrepared _
    _ = ((s.proceed site answers view primary).1.own site).lastExec := by
        rw [proceed_of_settled settled, lastExec_own_tidy]

/-- A primary that goes on in its view leaves a hole only for a request that is superseded. -/
theorem unbroken_proceed (room : 0 < site.cluster.logCapacity)
    (settled : (s.own site).viewChanged = false) (numbered : Numbered line)
    (longer : Numbered (line ++ s.proceedAssigns site answers view primary))
    (inView : ∀ a ∈ line ++ s.proceedAssigns site answers view primary, a.view = view)
    (accounts : ∀ k, (s.recordOf k).Accounts site.cluster.logCapacity line)
    (unbroken : (s.own site).Unbroken line) :
    ((s.proceed site answers view primary).1.own site).Unbroken
      (line ++ s.proceedAssigns site answers view primary) := by
  have progress : (s.own site).lastExec ≤
      ((s.proceed site answers view primary).1.own site).lastExec :=
    lastExec_le_proceed inTable room settled numbered fun k => (accounts k).genuine
  intro a inLine pending
  have left : (∃ count ≤ ((s.prepared site answers view primary).own site).queue.length,
      (((s.prepared site answers view primary).commitUpTo site count).1.own site).executed
        a.request = true) →
      ((s.proceed site answers view primary).1.own site).Superseded
        (line ++ s.proceedAssigns site answers view primary) a := by
    rintro ⟨count, upTo, executed⟩
    exact superseded_proceed inTable room settled longer accounts upTo executed
  rcases List.mem_append.mp inLine with old | new
  · rcases unbroken a old (Nat.lt_of_le_of_lt progress pending) with queued | superseded
    · exact (queued_proceed inTable queued (inView a inLine) settled).imp_right left
    · exact .inr (superseded.mono (List.subset_append_left ..) progress)
  · have queued := queued_prepared_of_assigned inTable new
    rw [proceed_of_settled settled] at left ⊢
    exact (queued_finish (by rwa [length_records_prepared]) queued (inView a inLine)).imp_right left

end Proceeding

/-- A replica that leads the view it is told, if any, does not begin to lead it again. -/
theorem roundLeads_eq_false (quiet : s.flush = false) (leading : s.Leading site)
    (keeps : answers.viewOf site.me = .tee ∨ answers.viewOf site.me = .id site.me) :
    s.roundLeads site answers = false := by
  have honoured : s.honourFlush site = s := by
    rw [honourFlush, quiet]
    rfl
  have tracked : s.trackView site (.id site.me) = s := if_pos leading.1
  unfold roundLeads
  rcases keeps with unseen | seen
  · rw [unseen]
  · rw [seen]
    dsimp only
    rw [honoured, tracked, leading.2, Bool.and_false, Bool.false_and]

end Agreement

/-! ### In a run -/

theorem upheld_accounts {c : Cluster} (configured : c.Configured) :
    Upheld c fun line r => r.Accounts c.logCapacity line where
  new _ _ := .new _
  longer _ _ _ _ accounts := accounts.longer _
  buffer _ _ _ accounts := accounts.of_fewer rfl rfl rfl fun _ queued => queued
  sanitize _ _ accounts := accounts.sanitize _ _
  entry _ _ _ _ _ numbered others entry accounts :=
    entry.accounts configured.logCapacity_pos numbered others accounts
  change _ _ _ _ _ _ numbered onLine others change accounts :=
    change.accounts configured.logCapacity_pos numbered others onLine accounts

namespace Ensemble

variable {c : Cluster} {v k : NodeId} {line : List AssignedRequest} {e : Ensemble}
  {s t : Agreement} {answers : Answers}

/-- The replicas stay in one view, its primary has assigned the line in its latest reign, and it has
queued all of the line that it has not executed and that is not superseded. -/
structure LedBy (c : Cluster) (v : NodeId) (line : List AssignedRequest) (e : Ensemble) :
    Prop where
  keeping : e.SteadyWith c (fun line r => r.Accounts c.logCapacity line) v line
  noted : ∀ g, latest? v e.reigns = some g → g.assigned = line
  unbroken : ∀ s, e.replicas[v]? = some s → (s.own (c.siteOf v)).Unbroken line

theorem ledBy_start (configured : c.Configured) (v : NodeId) : (start c).LedBy c v [] where
  keeping := steadyWith_start (upheld_accounts configured) v
  noted := by simp [start, latest?]
  unbroken _ _ _ inLine := absurd inLine List.not_mem_nil

namespace LedBy

/-- A replica that keeps its log and its queue changes nothing. -/
theorem put (led : e.LedBy c v line) (found : e.replicas[k]? = some s)
    {submitted : List ClientRequest}
    (keeping : ({ e.put k t with submitted := submitted }).SteadyWith c
      (fun line r => r.Accounts c.logCapacity line) v line)
    (logged : (t.own (c.siteOf k)).logged = (s.own (c.siteOf k)).logged)
    (queued : (t.own (c.siteOf k)).queued = (s.own (c.siteOf k)).queued) :
    ({ e.put k t with submitted := submitted }).LedBy c v line where
  keeping := keeping
  noted := led.noted
  unbroken := by
    intro r foundR
    rcases replicas_put foundR with ⟨rfl, rfl⟩ | ⟨_, before⟩
    · exact (led.unbroken s found).of_eq logged queued
    · exact led.unbroken r before

variable (configured : c.Configured) (enough : 3 * c.faults < c.size)
include configured enough

/-- In its round the primary stays without holes that are not superseded. -/
theorem unbroken_round (led : e.LedBy c v line) (found : e.replicas[v]? = some s)
    (below : s.Below (c.siteOf v))
    (keeps : answers.viewOf v = .tee ∨ answers.viewOf v = .id v) :
    ((s.round (c.siteOf v) answers).state.own (c.siteOf v)).Unbroken
      (line ++ s.roundAssigns (c.siteOf v) answers) := by
  have room := configured.logCapacity_pos
  have upheld := upheld_accounts configured
  have inView := led.keeping.steady.inView v s found
  have unbroken := led.unbroken s found
  have holds := led.keeping.tables v s found
  have inTable := inView.lawful.inTable
  have numbered := inView.ofView.numbered
  have longer := (inView.round configured enough below keeps).1.ofView
  rcases inView.lawful.round_cases configured enough inView.ofView below inView.quiet keeps with
    ⟨same, nothing, _⟩ | ⟨after, given, _⟩
  · rw [same, nothing, List.append_nil]
    exact unbroken
  · rw [given] at longer
    rw [after, given]
    by_cases leading : s.Leading (c.siteOf v)
    · have entered : s.enterView (c.siteOf v) (.id v) v = s :=
        Agreement.enterView_of_settled leading.1 leading.2 v
      rw [entered] at longer ⊢
      exact Agreement.unbroken_proceed inTable room leading.2 numbered longer.numbered longer.inView
        (upheld.recordOf holds) unbroken
    · -- Nothing has been assigned before the primary leads its view for the first time.
      obtain rfl : line = [] := (inView.atEnd rfl).2.resolve_left leading
      have inEntered := (Agreement.reached_enterView inTable (.id v) v).inTable inTable
      rcases Agreement.stance_own_proceed answers (.id v) v inEntered with
        ⟨nothing, _⟩ | ⟨_, settled, _⟩
      · rw [nothing]
        exact fun a inLine => absurd inLine List.not_mem_nil
      · exact Agreement.unbroken_proceed inEntered room settled numbered longer.numbered
          longer.inView (upheld.recordOf (upheld.enterView inTable numbered holds (.id v) v))
          fun a inLine => absurd inLine List.not_mem_nil

/-- A round adds to the latest reign of the primary what it adds to the line. -/
theorem noted_round (led : e.LedBy c v line) (found : e.replicas[k]? = some s)
    (below : s.Below (c.siteOf k))
    (keeps : answers.viewOf k = .tee ∨ answers.viewOf k = .id v) {g : Reign}
    (latest : latest? v (noteRound (c.siteOf k) answers s e.reigns) = some g) :
    g.assigned = line ++ s.roundAssigns (c.siteOf k) answers := by
  have inView := led.keeping.steady.inView k s found
  by_cases isPrimary : k = v
  · subst isPrimary
    rw [noteRound_eq] at latest
    have extended := latest?_extendReign k (s.roundAssigns (c.siteOf k) answers)
      (begunReigns (c.siteOf k) answers s e.reigns)
    obtain ⟨begun, current, rfl⟩ := Option.map_eq_some_iff.mp (extended.symm.trans latest)
    refine congrArg (· ++ s.roundAssigns (c.siteOf k) answers) ?_
    unfold begunReigns at current
    split at current
    · next leads =>
        have starts : ¬s.Leading (c.siteOf k) := by
          intro leading
          rw [Agreement.roundLeads_eq_false inView.quiet leading keeps] at leads
          contradiction
        rw [(inView.atEnd rfl).2.resolve_left starts]
        simp only [latest?, Cluster.siteOf, decide_true, List.find?_cons_of_pos,
          Option.some.injEq] at current
        rw [← current]
    · exact led.noted begun current
  · have nothing := (inView.round configured enough below keeps).2.1 isPrimary
    rw [latest?_noteRound_of_ne (Ne.symm isPrimary)] at latest
    rw [nothing, List.append_nil]
    exact led.noted g latest

theorem round (led : e.LedBy c v line) (found : e.replicas[k]? = some s)
    (keeps : answers.viewOf k = .tee ∨ answers.viewOf k = .id v)
    (small : ((s.round (c.siteOf k) answers).state.own (c.siteOf k)).seqsBelow c.seqLimit = true) :
    ({ e.put k (s.round (c.siteOf k) answers).state with
        sent := e.sent ++ [(k, (s.round (c.siteOf k) answers).state.own (c.siteOf k))]
        events := e.events ++ (s.round (c.siteOf k) answers).events.map fun event => (k, event)
        reigns := noteRound (c.siteOf k) answers s e.reigns }).LedBy c v
      (line ++ s.roundAssigns (c.siteOf k) answers) := by
  have positive : 0 < c.seqLimit := Nat.zero_lt_of_lt (Record.seqsBelow_iff.mp small).1
  have below := led.keeping.steady.below positive k s found
  have inView := led.keeping.steady.inView k s found
  exact
    { keeping :=
        led.keeping.round configured enough (upheld_accounts configured) found keeps small _
      noted := fun g latest => led.noted_round configured enough found below keeps latest
      unbroken := by
        intro r foundR
        rcases replicas_put foundR with ⟨rfl, rfl⟩ | ⟨other, before⟩
        · exact led.unbroken_round configured enough found below keeps
        · rw [(inView.round configured enough below keeps).2.1 (Ne.symm other), List.append_nil]
          exact led.unbroken r before }

/-- An action keeps the primary so, and only a round can make the line longer. -/
theorem act (led : e.LedBy c v line) {action : Action} (keeps : action.KeepsTo v)
    (small : ∀ m ∈ (e.act c action).sent, m.2.seqsBelow c.seqLimit = true) :
    ∃ more, (e.act c action).LedBy c v (line ++ more) := by
  have upheld := upheld_accounts configured
  refine act_longer keeps small led ?_ ?_ ?_ ?_
  · intro k s q found
    have keeping := led.keeping.submit upheld found q
    rcases Agreement.submit_eq_or (c.siteOf k) s q with same | ⟨_, buffered⟩
    · rw [same] at keeping ⊢
      exact led.put found keeping rfl rfl
    · rw [buffered] at keeping ⊢
      exact led.put found keeping
        (Agreement.apply_own_updateOwn Record.logged (by intro r; rfl))
        (Agreement.apply_own_updateOwn Record.queued (by intro r; rfl))
  · intro k s sender r found wasSent isSmall
    have same := Agreement.own_receive (c.siteOf k) sender r s
    exact led.put found (led.keeping.deliver upheld found wasSent isSmall)
      (congrArg Record.logged same) (congrArg Record.queued same)
  · intro k s answers found keeps isSmall
    exact led.round configured enough found keeps isSmall
  · intro k s t function reply found notFlush answered
    have same : t.own (c.siteOf k) = s.own (c.siteOf k) := by
      rw [Agreement.own, Agreement.recordOf, Agreement.records_call answered]
      rfl
    exact led.put found (led.keeping.ask found notFlush answered)
      (congrArg Record.logged same) (congrArg Record.queued same)

end LedBy

/-- Along a line every client has its requests assigned in the order of their timestamps. -/
def ClientsInOrder (line : List AssignedRequest) : Prop :=
  ∀ b ∈ line, ∀ a ∈ line, b.seq < a.seq → b.request.client = a.request.client →
    b.request.timestamp < a.request.timestamp

instance (line : List AssignedRequest) : Decidable (ClientsInOrder line) :=
  inferInstanceAs (Decidable (∀ b ∈ line, ∀ a ∈ line, _ → _ → _))

/-- A primary leaves a hole in its sequence only for a request that comes late.  While all replicas
are told one view, or none, and no number comes close to the bound, a primary that leads the view
has given out exactly the numbers up to its last one, in one reign.  Each request that it has not
executed it has queued, unless its client has had one with the same or a later timestamp executed
before it.  So as long as it assigns the requests of each client in the order of their timestamps,
it has a queue entry for each number beyond the last executed one. -/
theorem holes_only_from_late_requests {c : Cluster} {v : NodeId} {actions : List Action}
    (configured : c.Configured) (enough : 3 * c.faults < c.size)
    (keeps : ∀ action ∈ actions, action.KeepsTo v)
    (small : ∀ m ∈ (run c actions).sent, m.2.seqsBelow c.seqLimit = true) {s : Agreement}
    (found : (run c actions).replicas[v]? = some s) (leading : s.Leading (c.siteOf v)) :
    ∃ g, latest? v (run c actions).reigns = some g ∧ Numbered g.assigned ∧
      (s.own (c.siteOf v)).seq = g.assigned.length ∧
      (∀ a ∈ g.assigned, (s.own (c.siteOf v)).lastExec < a.seq →
        a ∈ (s.own (c.siteOf v)).queued ∨
          ∃ b ∈ g.assigned, b.seq ≤ (s.own (c.siteOf v)).lastExec ∧
            b.request.client = a.request.client ∧ a.request.timestamp ≤ b.request.timestamp) ∧
      (ClientsInOrder g.assigned → ∀ number, (s.own (c.siteOf v)).lastExec < number →
        number ≤ (s.own (c.siteOf v)).seq →
        ∃ a ∈ (s.own (c.siteOf v)).queued, a.seq = number) := by
  obtain ⟨line, led⟩ := exists_line_run (ledBy_start configured v)
    (fun _ _ _ keeps small led => led.act configured enough keeps small) keeps small
  obtain ⟨g, latest, _⟩ := (traced_run c actions).remembered v s found leading
  obtain rfl := led.noted g latest
  have inView := led.keeping.steady.inView v s found
  have numbered := inView.ofView.numbered
  have seq : (s.own (c.siteOf v)).seq = g.assigned.length := (inView.atEnd rfl).1
  have unbroken := led.unbroken s found
  refine ⟨g, latest, numbered, seq, unbroken, fun inOrder number beyond upTo => ?_⟩
  obtain ⟨a, inLine, rfl⟩ : ∃ a ∈ g.assigned, a.seq = number :=
    numbered.exists_seq_eq (Nat.zero_lt_of_lt beyond) (seq ▸ upTo)
  rcases unbroken a inLine beyond with queued | ⟨b, earlier, executed, sameClient, late⟩
  · exact ⟨a, queued, rfl⟩
  · have rising := inOrder b earlier a inLine (Nat.lt_of_le_of_lt executed beyond) sameClient
    exact absurd late (Nat.not_le_of_lt rising)

theorem keepsTo_roundsIn (view : NodeId) (replicas : List NodeId) :
    ∀ action ∈ roundsIn view replicas, action.KeepsTo view := by
  intro action member
  obtain ⟨k, _, rfl⟩ := List.mem_map.mp member
  exact .inr rfl

theorem keepsTo_arrivals (view : NodeId) (indices receivers : List Nat) :
    ∀ action ∈ arrivals indices receivers, action.KeepsTo view := by
  intro action member
  obtain ⟨index, _, delivery⟩ := List.mem_flatMap.mp member
  obtain ⟨k, _, rfl⟩ := List.mem_map.mp delivery
  trivial

theorem keepsTo_takeOver (primary : NodeId) (waiting : List NodeId) (q : ClientRequest)
    (next : Nat) : ∀ action ∈ takeOver primary waiting q next, action.KeepsTo primary := by
  simp only [takeOver, List.forall_mem_append, List.forall_mem_singleton]
  exact ⟨⟨⟨keepsTo_roundsIn _ _, keepsTo_arrivals _ _ _⟩, trivial⟩, keepsTo_roundsIn _ _⟩

theorem keepsTo_soleExecution (primary : NodeId) (next : Nat) :
    ∀ action ∈ soleExecution primary next, action.KeepsTo primary := by
  simp only [soleExecution, List.forall_mem_append]
  exact ⟨⟨⟨⟨⟨keepsTo_arrivals _ _ _, keepsTo_roundsIn _ _⟩, keepsTo_arrivals _ _ _⟩,
    keepsTo_roundsIn _ _⟩, keepsTo_arrivals _ _ _⟩, keepsTo_roundsIn _ _⟩

/-- While the others agree on the first request, the primary is given another one, to which it
assigns number 2 in the round in which it executes number 1. -/
def followedBy (q : ClientRequest) : List Action :=
  takeOver 0 [1, 2, 3, 4] firstRequest 0 ++ ([.submit 0 q] ++ soleExecution 0 4)

theorem keepsTo_followedBy (q : ClientRequest) : ∀ action ∈ followedBy q, action.KeepsTo 0 := by
  simp only [followedBy, List.forall_mem_append, List.forall_mem_singleton]
  exact ⟨keepsTo_takeOver _ _ _ _, trivial, keepsTo_soleExecution _ _⟩

/-- Replica 0 has executed the first request and assigned another one, and has this record left. -/
def ledTo (q : ClientRequest) (left : Record) : Ensemble :=
  let done := committedRecord 0 firstRequest
  { halfway with
    replicas := halfway.replicas.set 0
      (tableOf [left, waitingIn 0 freshRecord, done, done, done, freshRecord])
    sent := halfway.sent.dropLast ++ [(0, left)]
    submitted := [firstRequest, q]
    reigns :=
      [ { leader := 0
          start := 0
          assigned :=
            [ { request := firstRequest, view := .id 0, seq := 1 },
              { request := q, view := .id 0, seq := 2 } ] } ] }

/-- A request that its client has overtaken with the first one. -/
def overtakenRequest : ClientRequest :=
  { client := 0, timestamp := 0, operation := .append 30 }

theorem run_followedBy (q : ClientRequest) :
    run pairCluster (followedBy q) =
      ([Action.submit 0 q] ++ soleExecution 0 4).foldl (act pairCluster) begun := by
  rw [followedBy, run, List.foldl_append, ← run_begun, run]

theorem run_followedBy_second :
    run pairCluster (followedBy secondRequest) =
      ledTo secondRequest
        { executedFirst with
          pending := [secondRequest]
          queue := (proposedRecord 0 secondRequest).queue.map fun e =>
            { e with request := { e.request with seq := 2 } }
          seq := 2 } := by
  rw [run_followedBy]
  cbv

theorem run_followedBy_overtaken :
    run pairCluster (followedBy overtakenRequest) =
      ledTo overtakenRequest { executedFirst with seq := 2 } := by
  rw [run_followedBy]
  cbv

/-- A primary that is given requests in order still has number 2 queued when it has executed
number 1. -/
theorem followed_by_second_keeps_number :
    ∃ s, (run pairCluster (followedBy secondRequest)).replicas[0]? = some s ∧
      (s.own (pairCluster.siteOf 0)).lastExec = 1 ∧ (s.own (pairCluster.siteOf 0)).seq = 2 ∧
      ∃ a ∈ (s.own (pairCluster.siteOf 0)).queued, a.seq = 2 := by
  have small : ∀ m ∈ (run pairCluster (followedBy secondRequest)).sent,
      m.2.seqsBelow pairCluster.seqLimit = true := by
    rw [run_followedBy_second]
    decide +kernel
  obtain ⟨s, found, leading, executed, given⟩ : ∃ s,
      (run pairCluster (followedBy secondRequest)).replicas[0]? = some s ∧
        s.Leading (pairCluster.siteOf 0) ∧ (s.own (pairCluster.siteOf 0)).lastExec = 1 ∧
        (s.own (pairCluster.siteOf 0)).seq = 2 := by
    rw [run_followedBy_second]
    exact ⟨_, rfl, ⟨rfl, rfl⟩, rfl, rfl⟩
  have configured : pairCluster.Configured := .withClients (.new 6 1) 2
  obtain ⟨g, latest, _, _, _, queued⟩ := holes_only_from_late_requests configured (by decide)
    (keepsTo_followedBy secondRequest) small found leading
  have inOrder : ClientsInOrder g.assigned := by
    rw [run_followedBy_second] at latest
    rw [← Option.some.inj latest]
    decide
  exact ⟨s, found, executed, given, queued inOrder 2 (by omega) (by omega)⟩

/-- A primary that is given a request with an earlier timestamp late, and never flushes, has neither
executed number 2 nor queued anything for it. -/
theorem followed_by_overtaken_leaves_hole :
    pairCluster.Configured ∧ 3 * pairCluster.faults < pairCluster.size ∧
      (∀ action ∈ followedBy overtakenRequest, action.KeepsTo 0) ∧
      (∀ m ∈ (run pairCluster (followedBy overtakenRequest)).sent,
        m.2.seqsBelow pairCluster.seqLimit = true) ∧
      (∀ m ∈ (run pairCluster (followedBy overtakenRequest)).events, m.2 ≠ .localFlush) ∧
      ∃ s, (run pairCluster (followedBy overtakenRequest)).replicas[0]? = some s ∧
        s.Leading (pairCluster.siteOf 0) ∧ (s.own (pairCluster.siteOf 0)).lastExec = 1 ∧
        (s.own (pairCluster.siteOf 0)).seq = 2 ∧ (s.own (pairCluster.siteOf 0)).queued = [] := by
  refine ⟨.withClients (.new 6 1) 2, by decide, keepsTo_followedBy overtakenRequest, ?_⟩
  rw [run_followedBy_overtaken]
  exact ⟨by decide +kernel, by decide +kernel, _, rfl, ⟨rfl, rfl⟩, rfl, rfl, rfl⟩

end Ensemble

end QuorumList
