import QuorumList.Proofs.Lawful

/-!
What a replica keeps in order about itself.

Other processes may report whatever they like.  Their records are cut to size when they arrive, and
three phases of a round take something over from them: a new view the record of its primary, the
common history the log of its holder, and a follower the proposals of the primary.  The first two
take from sound records only, and the third compares a proposal with what is queued already.  So the
log of a replica stays short and without gaps, and its queue gives no request two places.

A primary assigns from its pending requests, which gives no request two places as long as no two of
them are of one origin.  Only a record copied from another primary can break that, and then the
replica renews its requests before it leads again.  That executed requests are neither pending nor
queued holds between rounds only: every round ends by dropping them.
-/
namespace QuorumList

namespace Record

variable {requests : List AssignedRequest} {a : AssignedRequest}

/-! ### Numbers without gaps -/

/-- The requests are numbered one after the other. -/
def Consecutive (requests : List AssignedRequest) : Prop :=
  ∃ first, requests.map AssignedRequest.seq = List.range' first requests.length

theorem consecutive_of_logGaps {r : Record} (noGap : r.logGaps = false) :
    Consecutive r.logged := by
  rw [logGaps] at noGap
  cases entries : r.logged with
  | nil => exact ⟨0, rfl⟩
  | cons a rest =>
      rw [entries] at noGap
      exact ⟨a.seq, map_seq_of_anyGap noGap⟩

theorem largestSeq_of_counting {first count : Nat}
    (counting : requests.map AssignedRequest.seq = List.range' first (count + 1)) :
    largestSeq requests = first + count := by
  apply Nat.le_antisymm
  · apply largestSeq_le
    intro a member
    have position := List.mem_map_of_mem (f := AssignedRequest.seq) member
    rw [counting, List.mem_range'_1] at position
    omega
  · have last : first + count ∈ requests.map AssignedRequest.seq := by
      rw [counting, List.mem_range'_1]
      omega
    obtain ⟨a, member, number⟩ := List.mem_map.mp last
    rw [← number]
    exact seq_le_largestSeq member

/-- Requests stay without gaps when the oldest are left out. -/
theorem Consecutive.lastEntries (consecutive : Consecutive requests) (capacity : Nat) :
    Consecutive (lastEntries capacity requests) := by
  obtain ⟨first, counting⟩ := consecutive
  refine ⟨first + (requests.length - capacity), ?_⟩
  rw [Record.lastEntries, List.map_drop, counting, List.drop_range', List.length_drop, Nat.mul_one]

/-- Requests stay without gaps when the one behind the largest is added. -/
theorem Consecutive.append_singleton (consecutive : Consecutive requests)
    (next : a.seq = largestSeq requests + 1) : Consecutive (requests ++ [a]) := by
  obtain ⟨first, counting⟩ := consecutive
  cases length : requests.length with
  | zero =>
      rw [List.eq_nil_of_length_eq_zero length]
      exact ⟨a.seq, rfl⟩
  | succ count =>
      refine ⟨first, ?_⟩
      rw [length] at counting
      rw [largestSeq_of_counting counting] at next
      rw [List.map_append, counting, List.map_singleton, next, List.length_append, length,
        List.length_singleton]
      exact (List.range'_1_concat ..).symm

/-! ### Places in the queue -/

theorem anyReassigned_eq_false_iff :
    anyReassigned requests = false ↔ requests.Pairwise fun a b => reassigns a b = false := by
  induction requests with
  | nil => simp [anyReassigned]
  | cons a rest ih =>
      simp only [anyReassigned, Bool.or_eq_false_iff, List.any_eq_false, Bool.not_eq_true, ih,
        List.pairwise_cons]

theorem reassigns_eq_false {b : AssignedRequest}
    (different : a.request.sameOrigin b.request = false) : reassigns a b = false := by
  rw [reassigns, different, Bool.false_and]

/-! ### Records in order -/

/-- The log and the pending requests of a record are within their bounds. -/
structure Fits (c : Cluster) (r : Record) : Prop where
  log : r.log.length ≤ c.logCapacity
  pending : r.pending.length ≤ c.pendingCapacity

theorem length_lastEntries_le {α : Type} (capacity : Nat) (l : List α) :
    (lastEntries capacity l).length ≤ capacity := by
  rw [lastEntries, List.length_drop]
  omega

theorem fits_sanitize (c : Cluster) (clients : Nat) (r : Record) :
    (r.sanitize clients c.pendingCapacity c.logCapacity).Fits c where
  log := length_lastEntries_le ..
  pending := List.length_take_le ..

/-- A replica at a site keeps its record in order: it is within its bounds, the log has no gaps, the
queue gives no request two places, and while the replica leads a view no two pending requests are of
one origin. -/
structure InOrder (site : Site) (r : Record) : Prop where
  fits : r.Fits site.cluster
  consecutive : Consecutive r.logged
  placedOnce : r.double = false
  distinct : r.view = .id site.me → r.viewChanged = false → DistinctOrigins r.pending

namespace InOrder

variable {site : Site} {r other : Record}

theorem new (site : Site) (clients : Nat) : (Record.new clients).InOrder site where
  fits := ⟨Nat.zero_le _, Nat.zero_le _⟩
  consecutive := ⟨0, rfl⟩
  placedOnce := rfl
  distinct := fun _ _ => .nil

/-- Requests may leave the pending requests and the queue. -/
theorem of_sublist (inOrder : r.InOrder site) (log : other.logged = r.logged)
    (pending : other.pending.Sublist r.pending) (queue : other.queued.Sublist r.queued)
    (view : other.view = r.view) (viewChanged : other.viewChanged = r.viewChanged) :
    other.InOrder site where
  fits :=
    { log := by
        have same : other.log.length = r.log.length := by
          simpa [logged] using congrArg List.length log
        rw [same]
        exact inOrder.fits.log
      pending := Nat.le_trans pending.length_le inOrder.fits.pending }
  consecutive := log ▸ inOrder.consecutive
  placedOnce :=
    anyReassigned_eq_false_iff.mpr
      (List.Pairwise.sublist queue (anyReassigned_eq_false_iff.mp inOrder.placedOnce))
  distinct := fun isMe leads =>
    (inOrder.distinct (view ▸ isMe) (viewChanged ▸ leads)).sublist pending

theorem pruneExecuted (inOrder : r.InOrder site) : r.pruneExecuted.InOrder site :=
  inOrder.of_sublist rfl List.filter_sublist (List.filter_sublist.map _) rfl rfl

/-- The queue may be extended, as long as no request gets a second place. -/
theorem of_queue (inOrder : r.InOrder site) {queue : List QueueEntry} {seq : Nat}
    (placedOnce : anyReassigned (queue.map QueueEntry.request) = false) :
    ({ r with queue := queue, seq := seq } : Record).InOrder site where
  fits := ⟨inOrder.fits.log, inOrder.fits.pending⟩
  consecutive := inOrder.consecutive
  placedOnce := placedOnce
  distinct := inOrder.distinct

theorem apply (inOrder : r.InOrder site) (next : a.seq = r.lastExec + 1) (executedBy : NodeSet) :
    (r.apply a executedBy site.cluster.logCapacity).InOrder site := by
  have fewer : ({ r.apply a executedBy site.cluster.logCapacity with log := r.log } :
      Record).InOrder site :=
    inOrder.of_sublist rfl List.filter_sublist (List.filter_sublist.map _) rfl rfl
  exact
    { fits := ⟨length_lastEntries_le .., fewer.fits.pending⟩
      consecutive := by
        have log : (r.apply a executedBy site.cluster.logCapacity).logged =
            lastEntries site.cluster.logCapacity (r.logged ++ [a]) :=
          (map_lastEntries ..).trans (by rw [List.map_append]; rfl)
        rw [log]
        exact (inOrder.consecutive.append_singleton next).lastEntries _
      placedOnce := fewer.placedOnce
      distinct := fewer.distinct }

end InOrder

end Record

/-! ### The phases of a round -/

namespace Agreement

/-- A proposal that a follower takes in gives no request a second place. -/
theorem placedOnce_of_acceptsProposal {site : Site} {view : View} {r : Record}
    {a : AssignedRequest} (placedOnce : r.double = false)
    (acceptable : acceptsProposal site view a r = true) :
    Record.anyReassigned ((r.queue ++ [preparedEntry a]).map QueueEntry.request) = false := by
  obtain ⟨_, _, fresh, _⟩ := acceptsProposal_iff.mp acceptable
  rw [List.map_append, Record.anyReassigned_eq_false_iff]
  refine List.pairwise_append.mpr ⟨Record.anyReassigned_eq_false_iff.mp placedOnce,
    List.pairwise_singleton .., ?_⟩
  intro b inQueue c isA
  obtain ⟨e, member, rfl⟩ := List.mem_map.mp inQueue
  rw [List.mem_singleton.mp isA]
  exact Record.reassigns_eq_false (fresh e member).1

/-- All records of a table are within their bounds, and that of the replica itself is in order. -/
structure InOrder (site : Site) (s : Agreement) : Prop where
  inTable : site.me < s.records.length
  fit : ∀ r ∈ s.records, r.Fits site.cluster
  own : (s.own site).InOrder site

namespace InOrder

variable {site : Site} {s : Agreement}

theorem new (member : site.me < site.cluster.size) : (Agreement.new site).InOrder site := by
  have inTable : site.me < (Agreement.new site).records.length := by
    simpa [Agreement.new] using member
  have isNew : ∀ r ∈ (Agreement.new site).records, r.InOrder site := by
    intro r inRecords
    rw [List.eq_of_mem_replicate inRecords]
    exact .new site _
  exact ⟨inTable, fun r inRecords => (isNew r inRecords).fits, isNew _ (recordOf_mem inTable)⟩

theorem fits_recordOf (inOrder : s.InOrder site) (k : NodeId) :
    (s.recordOf k).Fits site.cluster := by
  by_cases inTable : k < s.records.length
  · exact inOrder.fit _ (recordOf_mem inTable)
  · rw [recordOf_eq_blank (Nat.le_of_not_lt inTable)]
    exact (Record.InOrder.new site 0).fits

theorem updateOwn (inOrder : s.InOrder site) {f : Record → Record}
    (changed : (f (s.own site)).InOrder site) : (s.updateOwn site f).InOrder site where
  inTable := by
    rw [length_records_updateOwn]
    exact inOrder.inTable
  fit := forall_updateOwn inOrder.fit fun _ => changed.fits
  own := by
    rw [own_updateOwn inOrder.inTable]
    exact changed

theorem flushOwn (inOrder : s.InOrder site) : (s.flushOwn site).InOrder site :=
  inOrder.updateOwn (.new site _)

theorem honourFlush (inOrder : s.InOrder site) : (s.honourFlush site).InOrder site := by
  unfold Agreement.honourFlush
  split
  · exact ⟨inOrder.flushOwn.inTable, inOrder.flushOwn.fit, inOrder.flushOwn.own⟩
  · exact inOrder

/-- The holder of the common history has a sound record. -/
theorem sound_of_adoptable {state : List Int} {holder : NodeId}
    (chosen : s.adoptable site = some (state, holder)) :
    sound site (s.recordOf holder) = true := by
  obtain ⟨_, ⟨top, _, shared⟩, _⟩ := of_adoptable chosen
  exact (mem_soundNodes.mp (mem_beneath.mp (mem_beneath_of_sharedBelow shared)).1).2

theorem findCommonHistory (inOrder : s.InOrder site) :
    (s.findCommonHistory site).InOrder site := by
  have own := inOrder.own
  unfold Agreement.findCommonHistory
  split
  · exact inOrder.updateOwn (own.of_sublist rfl (.refl _) (.refl _) rfl rfl)
  · next state holder chosen =>
      have noGap := (sound_iff.mp (sound_of_adoptable chosen)).2.1
      apply inOrder.updateOwn
      dsimp only
      split
      · exact own.of_sublist rfl (.refl _) (.refl _) rfl rfl
      · split
        · exact own.of_sublist rfl (.refl _) (.refl _) rfl rfl
        · apply Record.InOrder.pruneExecuted
          exact
            { fits := ⟨(inOrder.fits_recordOf holder).log, own.fits.pending⟩
              consecutive := Record.consecutive_of_logGaps noGap
              placedOnce := own.placedOnce
              distinct := own.distinct }

/-! ### Entering a view -/

theorem trackView (inOrder : s.InOrder site) (view : View) :
    (s.trackView site view).InOrder site := by
  unfold Agreement.trackView
  split
  · exact inOrder
  · exact inOrder.updateOwn
      { fits := ⟨inOrder.own.fits.log, inOrder.own.fits.pending⟩
        consecutive := inOrder.own.consecutive
        placedOnce := inOrder.own.placedOnce
        distinct := fun _ leads => Bool.noConfusion leads }

theorem renewRequests (inOrder : s.InOrder site) : (s.renewRequests site).InOrder site :=
  inOrder.updateOwn
    { fits := ⟨inOrder.own.fits.log, List.length_take_le ..⟩
      consecutive := inOrder.own.consecutive
      placedOnce := rfl
      distinct := fun _ _ => distinctOrigins_renewedRequests site s }

/-- Adopting a history takes nothing into the pending requests. -/
theorem pending_findCommonHistory (inTable : site.me < s.records.length) :
    ((s.findCommonHistory site).own site).pending.Sublist (s.own site).pending := by
  unfold Agreement.findCommonHistory
  split
  · rw [own_updateOwn inTable]
  · rw [own_updateOwn inTable]
    dsimp only
    split
    · exact .refl _
    · split
      · exact .refl _
      · exact List.filter_sublist

theorem leadView (inOrder : s.InOrder site) (view : View) :
    (s.leadView site view).InOrder site := by
  unfold Agreement.leadView
  split
  · have renewed := inOrder.renewRequests
    have found := renewed.findCommonHistory
    have distinct : DistinctOrigins ((s.renewRequests site).own site).pending := by
      rw [Agreement.renewRequests, own_updateOwn inOrder.inTable]
      exact distinctOrigins_renewedRequests site s
    exact found.updateOwn
      { fits := ⟨found.own.fits.log, found.own.fits.pending⟩
        consecutive := found.own.consecutive
        placedOnce := found.own.placedOnce
        distinct := fun _ _ => distinct.sublist (pending_findCommonHistory renewed.inTable) }
  · exact inOrder

/-- What a follower copies is sound, and it does not lead the view that it copies for. -/
theorem followView (inOrder : s.InOrder site) {view : View} {primary : NodeId}
    (another : (s.own site).view ≠ .id site.me) :
    (s.followView site view primary).InOrder site := by
  unfold Agreement.followView
  dsimp only
  split
  · exact inOrder
  · next copied =>
      have accepted : s.acceptsNewPrimary site primary = true := by
        by_contra refused
        simp [refused] at copied
      simp only [acceptsNewPrimary, Bool.and_eq_true, sound_iff] at accepted
      obtain ⟨⟨⟨⟨⟨_, noGap, once⟩, _⟩, _⟩, _⟩, _⟩ := accepted
      exact inOrder.updateOwn
        { fits := ⟨(inOrder.fits_recordOf primary).log, (inOrder.fits_recordOf primary).pending⟩
          consecutive := Record.consecutive_of_logGaps noGap
          placedOnce := once
          distinct := fun isMe => absurd isMe another }

theorem enterView (inOrder : s.InOrder site) (primary : NodeId) :
    (s.enterView site (.id primary) primary).InOrder site := by
  have tracked := inOrder.trackView (.id primary)
  unfold Agreement.enterView changeView
  dsimp only
  split
  · split
    · exact tracked.leadView _
    · next another =>
        refine tracked.followView ?_
        rw [view_own_trackView inOrder.inTable]
        exact fun isMe => another (View.id.inj isMe)
  · exact tracked

/-! ### Moving requests on -/

/-- A replica that leads a view assigns every request once. -/
theorem assign (inOrder : s.InOrder site) (leading : s.Leading site) (view : View) :
    (s.assign site view).InOrder site := by
  rw [assign_eq inOrder.inTable]
  refine inOrder.updateOwn (inOrder.own.of_queue ?_)
  have given := map_request_assignments site view s
  have distinct := (inOrder.own.distinct leading.1 leading.2).sublist
    (given.trans List.filter_sublist)
  have queued : ((s.own site).queue ++ (s.assignments site view).map preparedEntry).map
      QueueEntry.request = (s.own site).queued ++ s.assignments site view := by
    rw [List.map_append, List.map_map]
    simp [Record.queued, Function.comp_def, preparedEntry]
  rw [queued, Record.anyReassigned_eq_false_iff]
  refine List.pairwise_append.mpr
    ⟨Record.anyReassigned_eq_false_iff.mp inOrder.own.placedOnce, ?_, ?_⟩
  · exact (List.pairwise_map.mp distinct).imp Record.reassigns_eq_false
  · intro a inQueue b new
    -- Only requests of an origin that is not in the queue are assigned.
    have unqueued := (List.mem_filter.mp (given.subset (List.mem_map_of_mem new))).2
    simp only [Bool.and_eq_true, Bool.not_eq_true', Record.isQueued, List.any_eq_false,
      Bool.not_eq_true] at unqueued
    obtain ⟨e, member, rfl⟩ := List.mem_map.mp inQueue
    exact Record.reassigns_eq_false (unqueued.1.1 e member)

theorem acceptProposals (inOrder : s.InOrder site) (view : View) (primary : NodeId) :
    (s.acceptProposals site view primary).InOrder site := by
  unfold Agreement.acceptProposals
  split
  · exact inOrder
  · apply inOrder.updateOwn
    refine acceptProposals_induction (P := fun r => r.InOrder site) ?_ _ inOrder.own
    intro r a _ ofR
    unfold acceptOne
    split
    · next acceptable =>
        exact ofR.of_queue (placedOnce_of_acceptsProposal ofR.placedOnce acceptable)
    · exact ofR

theorem prepareToCommit (inOrder : s.InOrder site) : (s.prepareToCommit site).InOrder site := by
  refine inOrder.updateOwn (inOrder.own.of_sublist rfl (.refl _) ?_ rfl rfl)
  rw [Record.queued, map_request_status]
  exact .refl _

theorem commit (inOrder : s.InOrder site) : (s.commit site).1.InOrder site := by
  refine commitUpTo_induction (P := fun t => t.InOrder site) ?_ _ inOrder
  intro t a ofT next _
  exact ofT.updateOwn (ofT.own.apply (of_nextCommitted next).2.1 _)

theorem tidy (inOrder : s.InOrder site) (view : View) : (s.tidy site view).InOrder site := by
  unfold Agreement.tidy
  have remembered := inOrder.updateOwn (f := fun r =>
      { r with
        log := r.log.map fun e =>
          { e with executedBy := e.executedBy.union (s.committedBy site e.request) } })
    (inOrder.own.of_sublist (map_request_executedBy ..) (.refl _) (.refl _) rfl rfl)
  refine remembered.updateOwn (.pruneExecuted ?_)
  split
  · exact remembered.own
  · exact remembered.own.of_sublist rfl (.refl _) (List.filter_sublist.map _) rfl rfl

theorem proceed (inOrder : s.InOrder site) (answers : Answers) {primary : NodeId}
    (entered : (s.own site).view = .id primary) :
    (s.proceed site answers (.id primary) primary).1.InOrder site := by
  have found := inOrder.findCommonHistory
  have stance : ((s.findCommonHistory site).own site).stance = (s.own site).stance :=
    stance_own_findCommonHistory
  simp only [Record.stance, Prod.mk.injEq] at stance
  unfold Agreement.proceed
  dsimp only
  split
  · exact found.tidy _
  · next working =>
      unfold agree
      dsimp only
      refine (InOrder.prepareToCommit (.acceptProposals ?_ _ _)).commit.tidy _
      split
      · next assigning =>
          rw [Bool.and_eq_true, decide_eq_true_eq] at assigning
          refine found.assign ⟨?_, Bool.eq_false_iff.mpr working⟩ _
          rw [stance.1, entered, assigning.1]
      · exact found

theorem round (inOrder : s.InOrder site) (answers : Answers) :
    (s.round site answers).state.InOrder site := by
  have honoured := inOrder.honourFlush
  rw [state_round]
  split
  · exact honoured
  · next primary _ =>
      have entered := honoured.enterView primary
      rw [actIn_eq]
      split
      · exact ⟨entered.flushOwn.inTable, entered.flushOwn.fit, entered.flushOwn.own⟩
      · exact entered.proceed answers (view_own_enterView honoured.inTable _ _)

/-! ### Between rounds -/

theorem submit (inOrder : s.InOrder site) (q : ClientRequest) :
    ((s.submit site q).toOption.getD s).InOrder site := by
  rcases submit_eq_or site s q with same | ⟨bufferable, buffered⟩
  · rw [same]
    exact inOrder
  · rw [buffered]
    have room := bufferable.room
    exact inOrder.updateOwn
      { fits := ⟨inOrder.own.fits.log, by simpa using Nat.succ_le_of_lt room⟩
        consecutive := inOrder.own.consecutive
        placedOnce := inOrder.own.placedOnce
        distinct := fun isMe leads =>
          (inOrder.own.distinct isMe leads).append_singleton bufferable.fresh }

theorem receive (inOrder : s.InOrder site) (sender : NodeId) (r : Record) :
    (s.receive site sender r).InOrder site where
  inTable := by
    rw [length_records_receive]
    exact inOrder.inTable
  fit := by
    unfold Agreement.receive
    split
    · intro t member
      rcases List.mem_or_eq_of_mem_set member with old | rfl
      · exact inOrder.fit t old
      · exact Record.fits_sanitize ..
    · exact inOrder.fit
  own := by
    rw [own_receive]
    exact inOrder.own

theorem call (inOrder : s.InOrder site) {function : Function} {reply : Reply} {t : Agreement}
    (answered : s.call site function = .ok (reply, t)) : t.InOrder site := by
  have same := records_call answered
  refine ⟨same ▸ inOrder.inTable, same ▸ inOrder.fit, ?_⟩
  rw [Agreement.own, recordOf, same]
  exact inOrder.own

end InOrder

/-! ### Executed requests -/

/-- Nothing that the record has pending or queued was executed. -/
def Unexecuted (r : Record) : Prop :=
  ∀ q ∈ r.pending ++ queuedRequests r, r.executed q = false

theorem unexecuted_new (clients : Nat) : Unexecuted (.new clients) := by
  intro q held
  exact absurd held List.not_mem_nil

theorem unexecuted_pruneExecuted (r : Record) : Unexecuted r.pruneExecuted := by
  intro q held
  -- Pruning leaves the log and the replies alone, and with them what counts as executed.
  show r.executed q = false
  cases List.mem_append.mp held with
  | inl pending => simpa using (List.mem_filter.mp pending).2
  | inr queued =>
      obtain ⟨a, inQueue, rfl⟩ := List.mem_map.mp queued
      obtain ⟨e, member, rfl⟩ := List.mem_map.mp inQueue
      simpa using (List.mem_filter.mp member).2

variable {site : Site} {s : Agreement}

theorem unexecuted_flushOwn (inTable : site.me < s.records.length) :
    Unexecuted ((s.flushOwn site).own site) := by
  rw [flushOwn, own_updateOwn inTable]
  exact unexecuted_new _

theorem unexecuted_proceed (inTable : site.me < s.records.length) (answers : Answers)
    (view : View) (primary : NodeId) :
    Unexecuted ((s.proceed site answers view primary).1.own site) := by
  have after : site.me < (s.proceed site answers view primary).1.records.length :=
    proceed_induction (P := fun t => site.me < t.records.length)
      (fun t f below => by rwa [length_records_updateOwn]) inTable
  unfold proceed tidy at *
  dsimp only at *
  rw [length_records_updateOwn] at after
  rw [own_updateOwn after]
  exact unexecuted_pruneExecuted _

/-- Whatever a round takes over and executes, in the end nothing executed is pending or queued. -/
theorem unexecuted_round (inTable : site.me < s.records.length)
    (unexecuted : Unexecuted (s.own site)) (answers : Answers) :
    Unexecuted ((s.round site answers).state.own site) := by
  have honoured : Unexecuted ((s.honourFlush site).own site) := by
    unfold honourFlush
    split
    · exact unexecuted_flushOwn inTable
    · exact unexecuted
  have inHonoured : site.me < (s.honourFlush site).records.length := by
    rwa [length_records_honourFlush]
  rw [state_round]
  split
  · exact honoured
  · next primary _ =>
      have entered : site.me <
          ((s.honourFlush site).enterView site (.id primary) primary).records.length := by
        rwa [length_records_enterView]
      rw [actIn_eq]
      split
      · exact unexecuted_flushOwn entered
      · exact unexecuted_proceed entered answers _ _

theorem unexecuted_submit (inTable : site.me < s.records.length)
    (unexecuted : Unexecuted (s.own site)) (q : ClientRequest) :
    Unexecuted (((s.submit site q).toOption.getD s).own site) := by
  rcases submit_eq_or site s q with same | ⟨bufferable, buffered⟩
  · rw [same]
    exact unexecuted
  · intro p held
    rw [buffered, own_updateOwn inTable] at held ⊢
    simp only [List.append_assoc, List.mem_append, List.mem_singleton] at held
    rcases held with pending | rfl | queued
    · exact unexecuted p (List.mem_append_left _ pending)
    · exact bufferable.unexecuted
    · exact unexecuted p (List.mem_append_right _ queued)

/-! ### Runs of one replica -/

/-- Something that happens to a replica. -/
inductive Move where
  | submit (q : ClientRequest)
  /-- A record arrives, which need not be one that any replica has ever held. -/
  | receive (sender : NodeId) (r : Record)
  | ask (function : Function)
  | round (answers : Answers)

/-- What a move makes of a replica.  A refused request or call changes nothing. -/
def move (site : Site) (s : Agreement) : Move → Agreement
  | .submit q => (s.submit site q).toOption.getD s
  | .receive sender r => s.receive site sender r
  | .ask function =>
      match s.call site function with
      | .ok (_, s) => s
      | .error _ => s
  | .round answers => (s.round site answers).state

/-- What a sequence of moves makes of a fresh replica. -/
def after (site : Site) (moves : List Move) : Agreement :=
  moves.foldl (move site) (new site)

theorem length_records_move (move : Move) :
    (s.move site move).records.length = s.records.length := by
  cases move with
  | submit q =>
      rcases submit_eq_or site s q with same | ⟨_, buffered⟩
      · rw [Agreement.move, same]
      · rw [Agreement.move, buffered, length_records_updateOwn]
  | receive sender r => exact length_records_receive ..
  | ask function =>
      unfold Agreement.move
      dsimp only
      split
      · next answered => rw [records_call answered]
      · rfl
  | round answers => exact length_records_round answers

theorem InOrder.move (inOrder : s.InOrder site) (unexecuted : Unexecuted (s.own site))
    (move : Move) : (s.move site move).InOrder site ∧ Unexecuted ((s.move site move).own site) := by
  cases move with
  | submit q => exact ⟨inOrder.submit q, unexecuted_submit inOrder.inTable unexecuted q⟩
  | receive sender r =>
      refine ⟨inOrder.receive sender r, ?_⟩
      show Unexecuted ((s.receive site sender r).own site)
      rw [own_receive]
      exact unexecuted
  | ask function =>
      unfold Agreement.move
      dsimp only
      split
      · next reply t answered =>
          refine ⟨inOrder.call answered, ?_⟩
          rw [Agreement.own, recordOf, records_call answered]
          exact unexecuted
      · exact ⟨inOrder, unexecuted⟩
  | round answers =>
      exact ⟨inOrder.round answers, unexecuted_round inOrder.inTable unexecuted answers⟩

/-- What a replica keeps true of its own record: the log holds at most `3 * sigma * clients`
requests, numbered without gaps; at most `sigma * clients` requests are pending; no request is
queued in two places; and nothing pending or queued was executed. -/
structure WellKept (c : Cluster) (r : Record) : Prop where
  logFits : r.log.length ≤ 3 * c.sigma * c.clients
  pendingFits : r.pending.length ≤ c.sigma * c.clients
  consecutive : Record.Consecutive r.logged
  placedOnce : r.double = false
  unexecuted : Unexecuted r

/-- Whatever is submitted, reported by others, asked or answered, a replica keeps its own record. -/
theorem wellKept_own_after (site : Site) (moves : List Move) :
    WellKept site.cluster ((after site moves).own site) := by
  have kept : ∀ r : Record, r.InOrder site → Unexecuted r → WellKept site.cluster r :=
    fun r inOrder unexecuted =>
      { logFits := inOrder.fits.log
        pendingFits := inOrder.fits.pending
        consecutive := inOrder.consecutive
        placedOnce := inOrder.placedOnce
        unexecuted := unexecuted }
  by_cases member : site.me < site.cluster.size
  · have start : (new site).InOrder site ∧ Unexecuted ((new site).own site) := by
      have inOrder := InOrder.new member
      refine ⟨inOrder, ?_⟩
      rw [own, List.eq_of_mem_replicate (recordOf_mem inOrder.inTable)]
      exact unexecuted_new _
    obtain ⟨inOrder, unexecuted⟩ := List.foldlRecOn
      (motive := fun s : Agreement => s.InOrder site ∧ Unexecuted (s.own site)) moves (move site)
      start fun _ kept move _ => kept.1.move kept.2 move
    exact kept _ inOrder.own unexecuted
  · -- A site outside the cluster has no place in the table, and its record is blank all along.
    have length : (after site moves).records.length = site.cluster.size :=
      List.foldlRecOn (motive := fun s : Agreement => s.records.length = site.cluster.size) moves
        (move site) (by simp [new]) fun s same move _ => (length_records_move move).trans same
    rw [own, recordOf_eq_blank (length ▸ Nat.le_of_not_lt member)]
    exact kept _ (.new site 0) (unexecuted_new 0)

end Agreement

end QuorumList
