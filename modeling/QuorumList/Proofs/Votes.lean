import QuorumList.Proofs.Repetition

/-!
One vote at each place.

A follower votes for a request by showing it as prepared, at a place that the primary chose: a view
and a number.  It takes no second request to a place as long as it has the first one queued.  So it
votes for two requests at one place only in two ways.  When it stops waiting for the primary of a
new view, it copies the whole queue of the primary, which may give one place to two requests.  And
when it counts a request as executed, it drops it from the queue, and with it the only memory of the
vote; this happens without the request being executed at that place once its client has a reply at a
later timestamp.
-/
namespace QuorumList

namespace Record

/-- The replies and the requests of the log decide what counts as executed. -/
theorem executed_congr {r other : Record} (replies : other.replies = r.replies)
    (logged : other.logged = r.logged) (q : ClientRequest) : other.executed q = r.executed q := by
  rw [Bool.eq_iff_iff, executed_iff, executed_iff, logged, lastRequest?, lastRequest?, replies]

/-- A request counts as executed once one of its origin has been executed. -/
theorem executed_apply {r : Record} {a b : AssignedRequest}
    (sameOrigin : a.request.sameOrigin b.request = true) (executedBy : NodeSet) (capacity : Nat) :
    (r.apply b executedBy capacity).executed a.request = true := by
  simp only [ClientRequest.sameOrigin, Bool.and_eq_true, decide_eq_true_eq] at sameOrigin
  refine executed_iff.mpr (.inl ⟨b.request, ?_, Nat.le_of_eq sameOrigin.2⟩)
  rw [lastRequest?_apply, if_pos sameOrigin.1.symm]

/-- The other record has executed the same and has the same pending, and has queued at least as
much. -/
structure QueuesMore (r other : Record) : Prop where
  state : other.state = r.state
  replies : other.replies = r.replies
  logged : other.logged = r.logged
  pending : other.pending = r.pending
  queued : ∀ a ∈ r.queued, a ∈ other.queued

namespace QueuesMore

theorem refl (r : Record) : r.QueuesMore r :=
  ⟨rfl, rfl, rfl, rfl, fun _ queued => queued⟩

theorem trans {r s t : Record} (first : r.QueuesMore s) (second : s.QueuesMore t) :
    r.QueuesMore t :=
  ⟨second.state.trans first.state, second.replies.trans first.replies,
    second.logged.trans first.logged, second.pending.trans first.pending,
    fun a queued => second.queued a (first.queued a queued)⟩

theorem append (r : Record) (more : List QueueEntry) (seq : Nat) :
    r.QueuesMore { r with queue := r.queue ++ more, seq := seq } :=
  ⟨rfl, rfl, rfl, rfl, fun a queued => by
    rw [Record.queued, List.map_append]
    exact List.mem_append_left _ queued⟩

theorem executed {r other : Record} (more : r.QueuesMore other) (q : ClientRequest) :
    other.executed q = r.executed q :=
  executed_congr more.replies more.logged q

end QueuesMore

end Record

namespace Agreement

variable {site : Site} {s : Agreement} {v : NodeId} {answers : Answers} {a b : AssignedRequest}

/-! ### What a round copies and counts -/

/-- In this round the replica stops waiting for the primary of its view and copies its record. -/
def roundCopies (site : Site) (answers : Answers) (s : Agreement) : Bool :=
  match answers.viewOf site.me with
  | .tee => false
  | .id primary =>
      let s := (s.honourFlush site).trackView site (.id primary)
      primary ≠ site.me && (s.own site).viewChanged &&
        !((s.changeView site (.id primary) primary).own site).viewChanged

/-- What a round makes of the records before it executes anything. -/
def prepared (site : Site) (answers : Answers) (view : View) (primary : NodeId) (s : Agreement) :
    Agreement :=
  let s := s.findCommonHistory site
  let s := if primary = site.me && mayAssign site answers then s.assign site view else s
  (s.acceptProposals site view primary).prepareToCommit site

theorem length_records_prepared (answers : Answers) (view : View) (primary : NodeId) :
    (s.prepared site answers view primary).records.length = s.records.length := by
  have found : (s.findCommonHistory site).records.length = s.records.length :=
    length_records_findCommonHistory
  unfold prepared prepareToCommit acceptProposals
  dsimp only
  rw [length_records_updateOwn]
  repeat' split
  · rw [assign, length_records_updateOwn, found]
  · exact found
  · rw [length_records_updateOwn, assign, length_records_updateOwn, found]
  · rw [length_records_updateOwn, found]

/-- Requests move on in this round, and at some moment of it the replica counts a request as
executed. -/
def roundCounts (site : Site) (answers : Answers) (q : ClientRequest) (s : Agreement) : Prop :=
  ∃ primary, answers.viewOf site.me = .id primary ∧
    let s := (s.honourFlush site).enterView site (.id primary) primary
    (s.own site).viewChanged = false ∧
      let s := s.prepared site answers (.id primary) primary
      ∃ count ≤ (s.own site).queue.length,
        ((s.commitUpTo site count).1.own site).executed q = true

theorem proceed_of_settled {view : View} {primary : NodeId}
    (settled : (s.own site).viewChanged = false) :
    (s.proceed site answers view primary).1 =
      ((s.prepared site answers view primary).commit site).1.tidy site view := by
  have found : ((s.findCommonHistory site).own site).viewChanged = false :=
    viewChanged_own_findCommonHistory.trans settled
  unfold proceed
  dsimp only
  rw [found]
  rfl

/-! ### How requests leave the queue -/

/-- Pruning drops only what counts as executed. -/
theorem queued_pruneExecuted {r : Record} (queued : a ∈ r.queued) :
    a ∈ r.pruneExecuted.queued ∨ r.executed a.request = true := by
  obtain ⟨e, member, rfl⟩ := List.mem_map.mp queued
  cases counted : r.executed e.request.request with
  | true => exact .inr rfl
  | false =>
      exact .inl (List.mem_map_of_mem (List.mem_filter.mpr ⟨member, by simp [counted]⟩))

/-- Execution stops at once, or goes on from the first execution. -/
theorem commitUpTo_eq_or (site : Site) (s : Agreement) :
    (∀ bound, (s.commitUpTo site bound).1 = s) ∨
      ∃ b, ∀ bound, (s.commitUpTo site (bound + 1)).1 =
        ((s.updateOwn site (Record.apply b (s.committedBy site b)
          site.cluster.logCapacity)).commitUpTo site bound).1 := by
  cases next : nextCommitted? (s.own site) with
  | none =>
      left
      intro bound
      cases bound with
      | zero => rfl
      | succ bound => rw [commitUpTo, next]
  | some b =>
      by_cases few : (s.committedBy site b).card < site.cluster.adoptQuorum
      · left
        intro bound
        cases bound with
        | zero => rfl
        | succ bound =>
            rw [commitUpTo, next]
            exact congrArg Prod.fst (if_pos few)
      · right
        refine ⟨b, fun bound => ?_⟩
        rw [commitUpTo, next]
        dsimp only
        rw [if_neg few]

/-- Executing committed requests drops only what is then counted as executed. -/
theorem queued_commitUpTo (bound : Nat) (inTable : site.me < s.records.length)
    (queued : a ∈ (s.own site).queued) :
    a ∈ ((s.commitUpTo site bound).1.own site).queued ∨
      ∃ count ≤ bound, ((s.commitUpTo site count).1.own site).executed a.request = true := by
  induction bound generalizing s with
  | zero => exact .inl queued
  | succ bound ih =>
      rcases commitUpTo_eq_or site s with stops | ⟨b, goesOn⟩
      · rw [stops]
        exact .inl queued
      · obtain ⟨e, member, rfl⟩ := List.mem_map.mp queued
        cases sameOrigin : e.request.request.sameOrigin b.request with
        | true =>
            refine .inr ⟨1, Nat.succ_le_succ (Nat.zero_le bound), ?_⟩
            rw [goesOn 0, commitUpTo, own_updateOwn inTable]
            exact Record.executed_apply sameOrigin _ _
        | false =>
            rw [goesOn bound]
            have stays : e.request ∈ ((s.updateOwn site (Record.apply b (s.committedBy site b)
                site.cluster.logCapacity)).own site).queued := by
              rw [own_updateOwn inTable]
              exact List.mem_map_of_mem (List.mem_filter.mpr ⟨member, by simp [sameOrigin]⟩)
            refine (ih (by rwa [length_records_updateOwn]) stays).imp_right ?_
            rintro ⟨count, upTo, counted⟩
            exact ⟨count + 1, Nat.succ_le_succ upTo, by rwa [goesOn count]⟩

section Leaving

variable (inTable : site.me < s.records.length)
include inTable

theorem queued_findCommonHistory (queued : a ∈ (s.own site).queued) :
    a ∈ ((s.findCommonHistory site).own site).queued ∨
      ((s.findCommonHistory site).own site).executed a.request = true := by
  unfold findCommonHistory
  split
  · rw [own_updateOwn inTable]
    exact .inl queued
  · rw [own_updateOwn inTable]
    dsimp only
    split
    · exact .inl queued
    · split
      · exact .inl queued
      · exact queued_pruneExecuted queued

/-- Before a round executes anything, it only adds to the queue. -/
theorem queuesMore_prepared (view : View) (primary : NodeId) :
    ((s.findCommonHistory site).own site).QueuesMore
      ((s.prepared site answers view primary).own site) := by
  have once : ∀ (t : Agreement) (f : Record → Record), site.me < t.records.length →
      (t.own site).QueuesMore (f (t.own site)) →
      (t.own site).QueuesMore ((t.updateOwn site f).own site) ∧
        site.me < (t.updateOwn site f).records.length := by
    intro t f inT more
    rw [own_updateOwn inT, length_records_updateOwn]
    exact ⟨more, inT⟩
  have inFound : site.me < (s.findCommonHistory site).records.length := by
    rwa [length_records_findCommonHistory]
  obtain ⟨t, assigned, more, inT⟩ : ∃ t,
      (if primary = site.me && mayAssign site answers then
        (s.findCommonHistory site).assign site view else s.findCommonHistory site) = t ∧
      ((s.findCommonHistory site).own site).QueuesMore (t.own site) ∧
      site.me < t.records.length := by
    split
    · exact ⟨_, rfl, once _ _ inFound (.append ..)⟩
    · exact ⟨_, rfl, .refl _, inFound⟩
  have accepted : (t.own site).QueuesMore ((t.acceptProposals site view primary).own site) ∧
      site.me < (t.acceptProposals site view primary).records.length := by
    unfold acceptProposals
    split
    · exact ⟨.refl _, inT⟩
    · refine once _ _ inT ?_
      refine acceptProposals_induction (P := (t.own site).QueuesMore) ?_ _ (.refl _)
      intro r a _ more
      unfold acceptOne
      split
      · exact more.trans (.append r _ r.seq)
      · exact more
  unfold prepared
  dsimp only
  rw [assigned]
  refine more.trans (accepted.1.trans (once _ _ accepted.2 ⟨rfl, rfl, rfl, rfl, ?_⟩).1)
  intro a queued
  rwa [Record.queued, map_request_status]

/-- Tidying up drops requests of other views, and what counts as executed. -/
theorem queued_tidy {view : View} (queued : a ∈ (s.own site).queued) (ofView : a.view = view) :
    a ∈ ((s.tidy site view).own site).queued ∨ (s.own site).executed a.request = true := by
  unfold tidy
  dsimp only
  rw [own_updateOwn (by rwa [length_records_updateOwn]), own_updateOwn inTable]
  have counted : ∀ r : Record, r.replies = (s.own site).replies →
      r.logged = (s.own site).logged → a ∈ r.queued →
      a ∈ r.pruneExecuted.queued ∨ (s.own site).executed a.request = true := by
    intro r replies logged stays
    rw [← Record.executed_congr replies logged]
    exact queued_pruneExecuted stays
  split
  · exact counted _ rfl (map_request_executedBy _ _) queued
  · refine counted _ rfl (map_request_executedBy _ _) ?_
    obtain ⟨e, member, rfl⟩ := List.mem_map.mp queued
    exact List.mem_map_of_mem (List.mem_filter.mpr ⟨member, by simp [unsupported, ofView]⟩)

/-- Executing and tidying up, a request of the view leaves the queue only when it is counted as
executed. -/
theorem queued_finish {view : View} (queued : a ∈ (s.own site).queued) (ofView : a.view = view) :
    a ∈ (((s.commit site).1.tidy site view).own site).queued ∨
      ∃ count ≤ (s.own site).queue.length,
        ((s.commitUpTo site count).1.own site).executed a.request = true := by
  rcases queued_commitUpTo _ inTable queued with stays | early
  · have inCommitted : site.me < (s.commit site).1.records.length :=
      commitUpTo_induction (P := fun t => site.me < t.records.length)
        (fun _ _ below _ _ => by rwa [length_records_updateOwn]) _ inTable
    exact (queued_tidy inCommitted stays ofView).imp_right fun counted =>
      ⟨_, Nat.le_refl _, counted⟩
  · exact .inr early

/-- While requests move on, a request of the view leaves the queue only when it is counted as
executed. -/
theorem queued_proceed {view : View} {primary : NodeId} (queued : a ∈ (s.own site).queued)
    (ofView : a.view = view) (settled : (s.own site).viewChanged = false) :
    a ∈ ((s.proceed site answers view primary).1.own site).queued ∨
      ∃ count ≤ ((s.prepared site answers view primary).own site).queue.length,
        (((s.prepared site answers view primary).commitUpTo site count).1.own site).executed
          a.request = true := by
  have more : ((s.findCommonHistory site).own site).QueuesMore
      ((s.prepared site answers view primary).own site) := queuesMore_prepared inTable view primary
  rw [proceed_of_settled settled]
  rcases queued_findCommonHistory inTable queued with found | counted
  · exact queued_finish (by rwa [length_records_prepared]) (more.queued a found) ofView
  · exact .inr ⟨0, Nat.zero_le _, by rwa [commitUpTo, more.executed]⟩

end Leaving

/-! ### How requests enter the queue -/

/-- A follower takes a request to a free place only, and only once it has stopped waiting. -/
theorem Change.queued_cases {r r' : Record} (change : Change site s [] r r') :
    (∀ a ∈ r'.queued, a ∈ r.queued) ∨
      r.viewChanged = false ∧ ∃ a, r'.queued = r.queued ++ [a] ∧
        ∀ b ∈ r.queued, ¬(b.view = a.view ∧ b.seq = a.seq) := by
  have fewer : ∀ keep : QueueEntry → Bool,
      ∀ a ∈ (r.queue.filter keep).map QueueEntry.request, a ∈ r.queued :=
    fun keep a member => (List.filter_sublist.map _).subset member
  cases change with
  | flag => exact .inl fun a member => member
  | adopt => exact .inl (fewer _)
  | assign => exact .inl fun a member => by simpa [Record.queued] using member
  | @accept view primary a settled _ _ acceptable =>
      refine .inr ⟨settled, a, by simp [Record.queued, preparedEntry], fun b member => ?_⟩
      obtain ⟨e, inQueue, rfl⟩ := List.mem_map.mp member
      exact ((acceptsProposal_iff.mp acceptable).2.2.1 e inQueue).2
  | prepare chosen =>
      refine .inl fun a member => ?_
      rwa [Record.queued, map_request_status] at member
  | execute => exact .inl (fewer _)
  | remember => exact .inl fun a member => member
  | drop keep => exact .inl (fewer keep)
  | prune => exact .inl (fewer _)

theorem Change.stance_eq {r r' : Record} {given : List AssignedRequest}
    (change : Change site s given r r') : r'.view = r.view ∧ r'.viewChanged = r.viewChanged := by
  cases change <;> exact ⟨rfl, rfl⟩

/-- A follower enters a view by noticing it, and possibly copying the record of the primary. -/
theorem enterView_follower {primary : NodeId} (another : primary ≠ site.me) (view : View) :
    s.enterView site view primary = s.trackView site view ∨
      ((s.trackView site view).own site).viewChanged = true ∧
        s.enterView site view primary =
          (s.trackView site view).updateOwn site
            (copyFrom ((s.trackView site view).recordOf primary)) := by
  unfold enterView changeView followView
  dsimp only
  split
  · next waiting =>
      split
      · exact .inl rfl
      · exact .inr ⟨waiting, rfl⟩
  · exact .inl rfl

/-! ### A round -/

/-- The record of a replica that only follows: it has nothing queued while it waits, and before it
has noticed its view. -/
structure Following (v : NodeId) (r : Record) : Prop where
  inView : r.view = .id v ∨ r.queue = []
  waiting : r.viewChanged = true → r.queue = []

theorem Following.of_empty {r : Record} (empty : r.queue = []) : Following v r :=
  ⟨.inr empty, fun _ => empty⟩

theorem Following.of_mem {r : Record} (following : Following v r) (queued : a ∈ r.queued) :
    r.view = .id v ∧ r.viewChanged = false := by
  have some : r.queue ≠ [] := by
    intro empty
    simp [Record.queued, empty] at queued
  exact ⟨following.inView.resolve_right some,
    Bool.eq_false_iff.mpr (mt following.waiting some)⟩

/-- Honouring a flush empties the queue, and otherwise nothing happens. -/
theorem honourFlush_cases (inTable : site.me < s.records.length) :
    (s.flush = true ∧ ((s.honourFlush site).own site).queue = []) ∨
      (s.flush = false ∧ s.honourFlush site = s) := by
  unfold Agreement.honourFlush
  cases flush : s.flush with
  | true =>
      refine .inl ⟨rfl, ?_⟩
      show ((s.flushOwn site).own site).queue = []
      rw [flushOwn, own_updateOwn inTable]
      rfl
  | false => exact .inr ⟨rfl, rfl⟩

/-- A round flushes, or sees no view and changes nothing, or enters the view and goes on. -/
theorem round_cases (inTable : site.me < s.records.length)
    (keeps : answers.viewOf site.me = .tee ∨ answers.viewOf site.me = .id v) :
    (((s.round site answers).state.own site).queue = [] ∧
        .localFlush ∈ (s.round site answers).events) ∨
      ((s.round site answers).state = s ∧ .localFlush ∉ (s.round site answers).events) ∨
      (answers.viewOf site.me = .id v ∧
        (s.round site answers).state =
          (((s.honourFlush site).enterView site (.id v) v).proceed site answers (.id v) v).1 ∧
        (.localFlush ∈ (s.round site answers).events ↔ s.flush = true)) := by
  have inEntered : site.me <
      ((s.honourFlush site).enterView site (.id v) v).records.length := by
    rwa [length_records_enterView, length_records_honourFlush]
  rw [state_round, localFlush_mem_events_round]
  cases keeps with
  | inl unseen =>
      rw [unseen]
      dsimp only
      rcases honourFlush_cases inTable with ⟨flush, empty⟩ | ⟨quiet, same⟩
      · exact .inl ⟨empty, .inl flush⟩
      · exact .inr (.inl ⟨same, by simp [quiet]⟩)
  | inr seen =>
      rw [seen]
      dsimp only
      rw [actIn_eq]
      cases must : ((s.honourFlush site).enterView site (.id v) v).mustFlush site with
      | true =>
          refine .inl ⟨?_, .inr ⟨v, rfl, must⟩⟩
          rw [if_pos rfl]
          exact congrArg Record.queue (own_updateOwn inEntered _)
      | false =>
          refine .inr (.inr ⟨rfl, rfl, ?_⟩)
          simp [must]

/-- Moving requests on, a follower keeps its record in order, and requests at one place were queued
before. -/
theorem following_proceed (answers : Answers) (inTable : site.me < s.records.length)
    (another : v ≠ site.me) (inView : (s.own site).view = .id v)
    (waiting : (s.own site).viewChanged = true → (s.own site).queue = []) :
    Following v ((s.proceed site answers (.id v) v).1.own site) ∧
      ∀ a ∈ ((s.proceed site answers (.id v) v).1.own site).queued,
        ∀ b ∈ ((s.proceed site answers (.id v) v).1.own site).queued,
          a.view = b.view → a.seq = b.seq → a.request = b.request ∨
            a ∈ (s.own site).queued ∧ b ∈ (s.own site).queued := by
  have reached := reached_proceed inTable answers (.id v) v
  rw [proceedAssigns_of_ne inTable (Ne.symm another)] at reached
  constructor
  · have kept : ((s.proceed site answers (.id v) v).1.own site).view = .id v ∧
        (((s.proceed site answers (.id v) v).1.own site).viewChanged = true →
          ∀ a, a ∉ ((s.proceed site answers (.id v) v).1.own site).queued) := by
      refine reached.own_of_keeps (P := fun r => r.view = .id v ∧
        (r.viewChanged = true → ∀ a, a ∉ r.queued)) ⟨inView, ?_⟩ ?_
      · intro isWaiting a
        simp [Record.queued, waiting isWaiting]
      · rintro r r' change ⟨view, empty⟩
        obtain ⟨sameView, sameWait⟩ := change.stance_eq
        refine ⟨sameView.trans view, fun isWaiting a member => ?_⟩
        rw [sameWait] at isWaiting
        rcases change.queued_cases with fewer | ⟨settled, _⟩
        · exact empty isWaiting a (fewer a member)
        · rw [settled] at isWaiting
          contradiction
    refine ⟨.inl kept.1, fun isWaiting => ?_⟩
    exact List.map_eq_nil_iff.mp (List.eq_nil_iff_forall_not_mem.mpr (kept.2 isWaiting))
  · refine reached.own_of_keeps (P := fun r => ∀ a ∈ r.queued, ∀ b ∈ r.queued,
      a.view = b.view → a.seq = b.seq → a.request = b.request ∨
        a ∈ (s.own site).queued ∧ b ∈ (s.own site).queued) ?_ ?_
    · exact fun a ofA b ofB _ _ => .inr ⟨ofA, ofB⟩
    · intro r r' change placed a ofA b ofB sameView sameSeq
      rcases change.queued_cases with fewer | ⟨_, new, queued, free⟩
      · exact placed a (fewer a ofA) b (fewer b ofB) sameView sameSeq
      · rw [queued, List.mem_append, List.mem_singleton] at ofA ofB
        rcases ofA with ofA | rfl
        · rcases ofB with ofB | rfl
          · exact placed a ofA b ofB sameView sameSeq
          · exact absurd ⟨sameView, sameSeq⟩ (free a ofA)
        · rcases ofB with ofB | rfl
          · exact absurd ⟨sameView.symm, sameSeq.symm⟩ (free b ofB)
          · exact .inl rfl

theorem Following.honourFlush (inTable : site.me < s.records.length)
    (following : Following v (s.own site)) : Following v ((s.honourFlush site).own site) := by
  rcases honourFlush_cases inTable with ⟨_, empty⟩ | ⟨_, same⟩
  · exact .of_empty empty
  · rw [same]
    exact following

theorem recordOf_noticed {k : NodeId} (another : k ≠ site.me) (view : View) :
    ((s.honourFlush site).trackView site view).recordOf k = s.recordOf k := by
  have honoured : (s.honourFlush site).recordOf k = s.recordOf k := by
    unfold Agreement.honourFlush
    split
    · exact recordOf_updateOwn_of_ne another _ s
    · rfl
  unfold trackView
  split
  · exact honoured
  · rw [recordOf_updateOwn_of_ne another, honoured]

/-- Noticing a view, a follower keeps its queue, which is empty if it has to wait. -/
theorem Following.trackView (inTable : site.me < s.records.length)
    (following : Following v (s.own site)) :
    ((s.trackView site (.id v)).own site).queue = (s.own site).queue ∧
      (((s.trackView site (.id v)).own site).viewChanged = true → (s.own site).queue = []) := by
  unfold Agreement.trackView
  split
  · exact ⟨rfl, following.waiting⟩
  · next other =>
      rw [own_updateOwn inTable]
      exact ⟨rfl, fun _ => following.inView.resolve_left other⟩

/-- A round of a follower keeps its record in order; and if two different requests are queued at one
place in the end, they were before, and the round does not flush, or the round has copied both. -/
theorem Following.round (another : v ≠ site.me) (inTable : site.me < s.records.length)
    (following : Following v (s.own site))
    (keeps : answers.viewOf site.me = .tee ∨ answers.viewOf site.me = .id v) :
    Following v ((s.round site answers).state.own site) ∧
      ∀ a ∈ ((s.round site answers).state.own site).queued,
        ∀ b ∈ ((s.round site answers).state.own site).queued,
          a.view = b.view → a.seq = b.seq → a.request = b.request ∨
            (a ∈ (s.own site).queued ∧ b ∈ (s.own site).queued ∧
              .localFlush ∉ (s.round site answers).events) ∨
            (s.roundCopies site answers = true ∧
              a ∈ (s.recordOf v).queued ∧ b ∈ (s.recordOf v).queued) := by
  rcases round_cases inTable keeps with ⟨empty, _⟩ | ⟨same, noFlush⟩ | ⟨seen, after, flushes⟩
  · refine ⟨.of_empty empty, fun a member => ?_⟩
    simp [Record.queued, empty] at member
  · rw [same]
    exact ⟨following, fun a ofA b ofB _ _ => .inr (.inl ⟨ofA, ofB, noFlush⟩)⟩
  · have inHonoured : site.me < (s.honourFlush site).records.length := by
      rwa [length_records_honourFlush]
    have inNoticed : site.me <
        ((s.honourFlush site).trackView site (.id v)).records.length := by
      rwa [length_records_trackView]
    have inEntered : site.me <
        ((s.honourFlush site).enterView site (.id v) v).records.length := by
      rwa [length_records_enterView]
    obtain ⟨queue, waiting⟩ := (following.honourFlush inTable).trackView inHonoured
    have inView := view_own_enterView inHonoured (.id v) v
    rw [after]
    rcases enterView_follower (s := s.honourFlush site) another (.id v) with
      entered | ⟨isWaiting, entered⟩
    · obtain ⟨stays, placed⟩ := following_proceed answers inEntered another inView
        (by rw [entered, queue]; exact waiting)
      refine ⟨stays, fun a ofA b ofB sameView sameSeq => ?_⟩
      refine (placed a ofA b ofB sameView sameSeq).imp_right fun both => .inl ?_
      rw [entered, Record.queued, queue] at both
      rcases honourFlush_cases inTable with ⟨_, empty⟩ | ⟨quiet, same⟩
      · simp [empty] at both
      · rw [same] at both
        exact ⟨both.1, both.2, fun flush => by simp [flushes.mp flush] at quiet⟩
    · have copied : (((s.honourFlush site).enterView site (.id v) v).own site) =
          copyFrom (s.recordOf v) (((s.honourFlush site).trackView site (.id v)).own site) := by
        rw [entered, own_updateOwn inNoticed, recordOf_noticed another]
      obtain ⟨stays, placed⟩ := following_proceed answers inEntered another inView
        (by rw [copied]; exact fun contrary => Bool.noConfusion contrary)
      refine ⟨stays, fun a ofA b ofB sameView sameSeq => ?_⟩
      refine (placed a ofA b ofB sameView sameSeq).imp_right fun both => .inr ⟨?_, ?_⟩
      · have changed : ((s.honourFlush site).trackView site (.id v)).changeView site (.id v) v =
            (s.honourFlush site).enterView site (.id v) v := (if_pos isWaiting).symm
        unfold roundCopies
        rw [seen]
        dsimp only
        rw [changed, copied, isWaiting]
        simp [another, copyFrom]
      · rw [copied] at both
        exact both

/-- In a round without a flush, a request of the view leaves the queue only when it is counted as
executed. -/
theorem queued_round (inTable : site.me < s.records.length)
    (following : Following v (s.own site))
    (keeps : answers.viewOf site.me = .tee ∨ answers.viewOf site.me = .id v)
    (noFlush : .localFlush ∉ (s.round site answers).events) (queued : a ∈ (s.own site).queued)
    (ofView : a.view = .id v) :
    a ∈ ((s.round site answers).state.own site).queued ∨
      s.roundCounts site answers a.request := by
  obtain ⟨inView, settled⟩ := following.of_mem queued
  rcases round_cases inTable keeps with ⟨_, flush⟩ | ⟨same, _⟩ | ⟨seen, after, flushes⟩
  · exact absurd flush noFlush
  · rw [same]
    exact .inl queued
  · have entered : (s.honourFlush site).enterView site (.id v) v = s := by
      rcases honourFlush_cases inTable with ⟨flush, _⟩ | ⟨_, same⟩
      · exact absurd (flushes.mpr flush) noFlush
      · rw [same, enterView_of_settled inView settled]
    rw [after, entered]
    refine (queued_proceed inTable queued ofView settled).imp_right fun counted => ⟨v, seen, ?_⟩
    rw [entered]
    exact ⟨settled, counted⟩

/-! ### Runs of a follower -/

/-- A move keeps to a view: rounds are told this view or none. -/
def Move.KeepsTo (site : Site) (v : NodeId) : Move → Prop
  | .round answers => answers.viewOf site.me = .tee ∨ answers.viewOf site.me = .id v
  | .submit _ => True
  | .receive .. => True
  | .ask _ => True

/-- What happens in a move. -/
def eventsOf (site : Site) (s : Agreement) : Move → List Event
  | .round answers => (s.round site answers).events
  | .submit _ => []
  | .receive .. => []
  | .ask _ => []

/-- The replica does not flush in these moves. -/
def Unflushed (site : Site) : Agreement → List Move → Prop
  | _, [] => True
  | s, move :: rest => .localFlush ∉ s.eventsOf site move ∧ Unflushed site (s.move site move) rest

instance Unflushed.decidable (site : Site) :
    ∀ (s : Agreement) (moves : List Move), Decidable (s.Unflushed site moves)
  | _, [] => .isTrue trivial
  | s, move :: rest =>
      have := Unflushed.decidable site (s.move site move) rest
      inferInstanceAs (Decidable (_ ∧ _))

theorem unflushed_append {early late : List Move} :
    s.Unflushed site (early ++ late) ↔
      s.Unflushed site early ∧ (early.foldl (move site) s).Unflushed site late := by
  induction early generalizing s with
  | nil => simp [Unflushed]
  | cons first rest ih => simp [Unflushed, ih, and_assoc]

theorem after_append (early late : List Move) :
    after site (early ++ late) = late.foldl (move site) (after site early) :=
  List.foldl_append ..

theorem length_records_after (moves : List Move) :
    (after site moves).records.length = site.cluster.size :=
  List.foldlRecOn (motive := fun s : Agreement => s.records.length = site.cluster.size) moves
    (move site) (by simp [new]) fun s same move _ => (length_records_move move).trans same

/-- Between rounds the queue and the stance of a replica stay. -/
theorem own_move (site : Site) (s : Agreement) {move : Move}
    (between : ∀ answers, move ≠ .round answers) :
    ((s.move site move).own site).queue = (s.own site).queue ∧
      ((s.move site move).own site).stance = (s.own site).stance := by
  cases move with
  | submit q =>
      rcases submit_eq_or site s q with same | ⟨_, buffered⟩
      · rw [Agreement.move, same]
        exact ⟨rfl, rfl⟩
      · rw [Agreement.move, buffered]
        exact ⟨apply_own_updateOwn Record.queue (by intro r; rfl),
          stance_own_updateOwn fun _ => rfl⟩
  | receive sender r =>
      rw [Agreement.move, own_receive]
      exact ⟨rfl, rfl⟩
  | ask function =>
      unfold Agreement.move
      dsimp only
      split
      · next answered =>
          rw [own, recordOf, records_call answered]
          exact ⟨rfl, rfl⟩
      · exact ⟨rfl, rfl⟩
  | round answers => exact absurd rfl (between answers)

/-- The queue that the follower copied when it stopped waiting, since when it has not flushed, had
both requests. -/
def CopiedBoth (site : Site) (v : NodeId) (moves : List Move) (a b : AssignedRequest) : Prop :=
  ∃ early answers late, moves = early ++ .round answers :: late ∧
    (after site early).roundCopies site answers = true ∧
    a ∈ ((after site early).recordOf v).queued ∧ b ∈ ((after site early).recordOf v).queued ∧
    (after site (early ++ [.round answers])).Unflushed site late

theorem CopiedBoth.append_singleton {moves : List Move} (copied : CopiedBoth site v moves a b)
    {move : Move} (noFlush : .localFlush ∉ (after site moves).eventsOf site move) :
    CopiedBoth site v (moves ++ [move]) a b := by
  obtain ⟨early, answers, late, rfl, copies, ofA, ofB, unflushed⟩ := copied
  refine ⟨early, answers, late ++ [move], by simp, copies, ofA, ofB, ?_⟩
  rw [unflushed_append, ← after_append]
  refine ⟨unflushed, ?_, trivial⟩
  simpa using noFlush

/-- After any moves the record of a follower is in order, and different requests that are queued at
one place were copied together. -/
theorem following_after (member : site.me < site.cluster.size) (another : v ≠ site.me)
    (moves : List Move) (keeps : ∀ move ∈ moves, move.KeepsTo site v) :
    Following v ((after site moves).own site) ∧
      ∀ a ∈ ((after site moves).own site).queued, ∀ b ∈ ((after site moves).own site).queued,
        a.view = b.view → a.seq = b.seq →
        a.request = b.request ∨ CopiedBoth site v moves a b := by
  induction moves using List.reverseRecOn with
  | nil =>
      have empty : ((new site).own site).queue = [] := by
        have inTable : site.me < (new site).records.length := by simpa [new] using member
        rw [own, List.eq_of_mem_replicate (recordOf_mem inTable)]
        rfl
      exact ⟨.of_empty empty, fun a ofA => by simp [after, Record.queued, empty] at ofA⟩
  | append_singleton moves move ih =>
      obtain ⟨following, placed⟩ := ih fun m inMoves => keeps m (List.mem_append_left _ inMoves)
      have inTable : site.me < (after site moves).records.length := by
        rwa [length_records_after]
      have keepsTo := keeps move (List.mem_append_right _ (List.mem_singleton_self move))
      have step : after site (moves ++ [move]) = (after site moves).move site move :=
        after_append moves [move]
      rw [step]
      by_cases isRound : ∃ answers, move = .round answers
      · obtain ⟨answers, rfl⟩ := isRound
        obtain ⟨stays, places⟩ := following.round another inTable keepsTo
        refine ⟨stays, fun a ofA b ofB sameView sameSeq => ?_⟩
        rcases places a ofA b ofB sameView sameSeq with
          same | ⟨oldA, oldB, noFlush⟩ | ⟨copies, copiedA, copiedB⟩
        · exact .inl same
        · exact (placed a oldA b oldB sameView sameSeq).imp_right fun copied =>
            copied.append_singleton noFlush
        · exact .inr ⟨moves, answers, [], rfl, copies, copiedA, copiedB, trivial⟩
      · have between : ∀ answers, move ≠ .round answers :=
          fun answers isIt => isRound ⟨answers, isIt⟩
        obtain ⟨queue, stance⟩ := own_move site (after site moves) between
        simp only [Record.stance, Prod.mk.injEq] at stance
        rw [Record.queued, queue]
        refine ⟨⟨?_, ?_⟩, fun a ofA b ofB sameView sameSeq => ?_⟩
        · rw [stance.1, queue]
          exact following.inView
        · rw [stance.2.1, queue]
          exact following.waiting
        · refine (placed a ofA b ofB sameView sameSeq).imp_right fun copied =>
            copied.append_singleton ?_
          cases move with
          | round answers => exact absurd rfl (between answers)
          | submit | receive | ask => exact List.not_mem_nil

/-- At some moment of the later moves the follower counted the request as executed. -/
def CountedWithin (site : Site) (before between : List Move) (q : ClientRequest) : Prop :=
  ∃ early answers late, between = early ++ .round answers :: late ∧
    (after site (before ++ early)).roundCounts site answers q

/-- While a follower does not flush, a request of the view stays queued until it is counted as
executed. -/
theorem queued_after (member : site.me < site.cluster.size) (another : v ≠ site.me)
    {before : List Move} (between : List Move)
    (keeps : ∀ move ∈ before ++ between, move.KeepsTo site v)
    (unflushed : (after site before).Unflushed site between)
    (queued : a ∈ ((after site before).own site).queued) (ofView : a.view = .id v) :
    a ∈ ((after site (before ++ between)).own site).queued ∨
      CountedWithin site before between a.request := by
  induction between using List.reverseRecOn with
  | nil => exact .inl (by rwa [List.append_nil])
  | append_singleton between move ih =>
      rw [← List.append_assoc] at keeps ⊢
      rw [unflushed_append, ← after_append] at unflushed
      obtain ⟨calm, last, _⟩ := unflushed
      have keepsBefore : ∀ m ∈ before ++ between, m.KeepsTo site v :=
        fun m inMoves => keeps m (List.mem_append_left _ inMoves)
      rcases ih keepsBefore calm with stays | ⟨early, answers, late, rfl, counts⟩
      · have step : after site (before ++ between ++ [move]) =
            (after site (before ++ between)).move site move := after_append _ [move]
        rw [step]
        by_cases isRound : ∃ answers, move = .round answers
        · obtain ⟨answers, rfl⟩ := isRound
          have inTable : site.me < (after site (before ++ between)).records.length := by
            rwa [length_records_after]
          have following := (following_after member another _ keepsBefore).1
          have keepsTo := keeps _ (List.mem_append_right _ (List.mem_singleton_self _))
          exact (queued_round inTable following keepsTo last stays ofView).imp_right
            fun counts => ⟨between, answers, [], rfl, counts⟩
        · have queue := (own_move site (after site (before ++ between))
            fun answers isIt => isRound ⟨answers, isIt⟩).1
          rw [Record.queued, queue]
          exact .inl stays
      · exact .inr ⟨early, answers, late ++ [move], by simp, counts⟩

/-- A follower that stays in one view and does not flush votes for different requests at one place
only if it copied both when it stopped waiting, or if in between it counted the first one as
executed. -/
theorem one_vote_per_place (another : v ≠ site.me) {before between : List Move}
    (keeps : ∀ move ∈ before ++ between, move.KeepsTo site v)
    (unflushed : (after site before).Unflushed site between)
    (ofView : a.view = .id v) (sameView : a.view = b.view) (sameSeq : a.seq = b.seq)
    (votesFirst : ((after site before).own site).carries a .prep = true)
    (votesThen : ((after site (before ++ between)).own site).carries b .prep = true) :
    a.request = b.request ∨ CopiedBoth site v (before ++ between) a b ∨
      CountedWithin site before between a.request := by
  have queuedOf : ∀ {r : Record} {x : AssignedRequest},
      r.carries x .prep = true → x ∈ r.queued := by
    intro r x carries
    unfold Record.carries at carries
    split at carries
    · next e found =>
        have isX := List.find?_some found
        exact of_decide_eq_true isX ▸ List.mem_map_of_mem (List.mem_of_find?_eq_some found)
    · contradiction
  have first := queuedOf votesFirst
  have member : site.me < site.cluster.size := by
    by_contra outside
    have beyond : (after site before).records.length ≤ site.me := by
      rw [length_records_after]
      exact Nat.le_of_not_lt outside
    rw [own, recordOf_eq_blank beyond] at first
    exact List.not_mem_nil first
  rcases queued_after member another between keeps unflushed first ofView with stays | counted
  · refine ((following_after member another _ keeps).2 a stays b (queuedOf votesThen) sameView
      sameSeq).imp_right .inl
  · exact .inr (.inr counted)

/-- A request of one client for view 0. -/
def placedRequest (seq timestamp : Nat) : AssignedRequest :=
  { request := Ensemble.timedRequest 0 timestamp, view := .id 0, seq := seq }

/-- A record in view 0 that shows requests with a status. -/
def votingRecord (status : StatusSet) (requests : List AssignedRequest) : Record :=
  { Record.new 1 with
    queue := requests.map fun a => { request := a, status := status }
    seq := Record.largestSeq requests
    view := .id 0 }

/-- The primary proposes the requests, and the follower runs a round. -/
def proposing (requests : List AssignedRequest) : List Move :=
  [.receive 0 (votingRecord .prepared requests), .round (Ensemble.reporting 0)]

/-- The follower executes a request at number 1 that all others have committed. -/
def overtaking : List Move :=
  .receive 0 (votingRecord .prepared [placedRequest 3 3, placedRequest 1 5]) ::
    ([2, 3, 4, 5].map fun k =>
      .receive k (votingRecord (StatusSet.prepared.insert .commit) [placedRequest 1 5])) ++
    [.round (Ensemble.reporting 0)]

/-- The follower votes for a request at number 3. -/
def votingMoves : List Move :=
  proposing [placedRequest 3 3]

/-- The follower counts that request as executed, since its client is ahead of it by now, and is
given another one for number 3. -/
def forgettingMoves : List Move :=
  overtaking ++ proposing [placedRequest 3 9]

theorem keepsTo_forgettingMoves :
    ∀ move ∈ votingMoves ++ forgettingMoves, move.KeepsTo (sampleSite 1) 0 := by
  simp [votingMoves, forgettingMoves, proposing, overtaking, Move.KeepsTo, Ensemble.reporting]

theorem unflushed_forgettingMoves :
    (after (sampleSite 1) votingMoves).Unflushed (sampleSite 1) forgettingMoves := by
  have unflushed : decide ((after (sampleSite 1) votingMoves).Unflushed (sampleSite 1)
      forgettingMoves) = true := by cbv
  exact of_decide_eq_true unflushed

theorem carries_votingMoves :
    ((after (sampleSite 1) votingMoves).own (sampleSite 1)).carries (placedRequest 3 3) .prep =
      true := by cbv

theorem carries_forgettingMoves :
    ((after (sampleSite 1) (votingMoves ++ forgettingMoves)).own (sampleSite 1)).carries
      (placedRequest 3 9) .prep = true := by cbv

/-- The follower that votes twice for number 3 has copied both requests, or has counted the first
one as executed. -/
theorem forgetting_follower_counted :
    (placedRequest 3 3).request ≠ (placedRequest 3 9).request ∧
      (CopiedBoth (sampleSite 1) 0 (votingMoves ++ forgettingMoves) (placedRequest 3 3)
          (placedRequest 3 9) ∨
        CountedWithin (sampleSite 1) votingMoves forgettingMoves (placedRequest 3 3).request) := by
  have different : (placedRequest 3 3).request ≠ (placedRequest 3 9).request := by decide
  have another : 0 ≠ (sampleSite 1).me := by decide
  exact ⟨different, (one_vote_per_place another keepsTo_forgettingMoves unflushed_forgettingMoves
    rfl (by decide) (by decide) carries_votingMoves carries_forgettingMoves).resolve_left different⟩

/-- A follower that copies a queue with two requests for number 1 votes for both; and one that
counts its first request for number 3 as executed votes for another one there. -/
theorem follower_votes_twice :
    ((∀ move ∈ proposing [placedRequest 1 1, placedRequest 1 2], move.KeepsTo (sampleSite 1) 0) ∧
        ((after (sampleSite 1) (proposing [placedRequest 1 1, placedRequest 1 2])).own
          (sampleSite 1)).carries (placedRequest 1 1) .prep = true ∧
        ((after (sampleSite 1) (proposing [placedRequest 1 1, placedRequest 1 2])).own
          (sampleSite 1)).carries (placedRequest 1 2) .prep = true ∧
        (placedRequest 1 1).request ≠ (placedRequest 1 2).request) ∧
      (∀ move ∈ votingMoves ++ forgettingMoves, move.KeepsTo (sampleSite 1) 0) ∧
      (after (sampleSite 1) votingMoves).Unflushed (sampleSite 1) forgettingMoves ∧
      ((after (sampleSite 1) votingMoves).own (sampleSite 1)).carries (placedRequest 3 3) .prep =
        true ∧
      ((after (sampleSite 1) (votingMoves ++ forgettingMoves)).own (sampleSite 1)).carries
        (placedRequest 3 9) .prep = true ∧
      (placedRequest 3 3).request ≠ (placedRequest 3 9).request := by
  refine ⟨⟨?_, by cbv, by cbv, by decide⟩, keepsTo_forgettingMoves, unflushed_forgettingMoves,
    carries_votingMoves, carries_forgettingMoves, by decide⟩
  simp [proposing, Move.KeepsTo, Ensemble.reporting]

end Agreement

end QuorumList
