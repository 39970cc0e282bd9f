import QuorumList.Proofs.History
import QuorumList.Proofs.Phases

/-!
Where assigned requests come from.

A replica never makes up an assigned request.  What its queue and its log show, it has assigned
itself as primary, or it has taken over from a record of its table.  So as long as all records of
the table show only requests of some kind, and the round assigns only requests of that kind, the
same holds after the round.
-/
namespace QuorumList

/-! ### Records -/

namespace Record

/-- Every request that the queue or the log shows is of a kind. -/
def Mentions (kind : AssignedRequest → Prop) (r : Record) : Prop :=
  ∀ a, a ∈ r.queued ∨ a ∈ r.logged → kind a

namespace Mentions

variable {kind wider : AssignedRequest → Prop} {r other : Record}

theorem mono (mentions : r.Mentions kind) (wide : ∀ a, kind a → wider a) : r.Mentions wider :=
  fun a shown => wide a (mentions a shown)

theorem of_eq (mentions : r.Mentions kind) (queue : other.queued = r.queued)
    (log : other.logged = r.logged) : other.Mentions kind := by
  unfold Mentions
  rw [queue, log]
  exact mentions

theorem of_subset (mentions : r.Mentions kind) (queue : other.queued ⊆ r.queued)
    (log : other.logged ⊆ r.logged) : other.Mentions kind := by
  rintro a (queued | logged)
  · exact mentions a (.inl (queue queued))
  · exact mentions a (.inr (log logged))

/-- A record may take over the log of another one. -/
theorem of_log (mentions : r.Mentions kind) {source : Record} (ofSource : source.Mentions kind)
    (queue : other.queued = r.queued) (log : other.logged = source.logged) :
    other.Mentions kind := by
  rintro a (queued | logged)
  · exact mentions a (.inl (queue ▸ queued))
  · exact ofSource a (.inr (log ▸ logged))

theorem new (clients : Nat) : (Record.new clients).Mentions kind := by
  rintro a (queued | logged)
  · simp [Record.new, Record.blank, Record.queued] at queued
  · simp [Record.new, Record.blank, Record.logged] at logged

theorem blank : Record.blank.Mentions kind :=
  (new 0).of_eq rfl rfl

theorem pruneExecuted (mentions : r.Mentions kind) : r.pruneExecuted.Mentions kind := by
  refine mentions.of_subset ?_ fun _ logged => logged
  exact List.map_subset _ List.filter_sublist.subset

theorem sanitize (mentions : r.Mentions kind) (clients pendingCapacity logCapacity : Nat) :
    (r.sanitize clients pendingCapacity logCapacity).Mentions kind := by
  refine mentions.of_subset ?_ ?_
  · exact List.map_subset _ (List.take_subset _ _)
  · exact List.map_subset _ (List.drop_subset _ _)

/-- Execution moves a request from the queue to the log. -/
theorem apply (mentions : r.Mentions kind) {a : AssignedRequest} (ofA : kind a)
    (executedBy : NodeSet) (logCapacity : Nat) :
    (r.apply a executedBy logCapacity).Mentions kind := by
  rintro b (queued | logged)
  · exact mentions b (.inl (List.map_subset _ List.filter_sublist.subset queued))
  · have shown := List.map_subset _ (List.drop_subset _ _) logged
    rw [List.map_append, List.mem_append] at shown
    cases shown with
    | inl old => exact mentions b (.inr old)
    | inr isA =>
        obtain rfl : b = a := by simpa using isA
        exact ofA

end Mentions

/-- All numbers of a record are below a limit when the last one given out and those of all requests
that it shows are. -/
theorem seqsBelow_iff {r : Record} {limit : Nat} :
    r.seqsBelow limit = true ↔ r.seq < limit ∧ r.Mentions fun a => a.seq < limit := by
  simp only [seqsBelow, Bool.and_eq_true, decide_eq_true_eq, List.all_eq_true, Mentions, queued,
    logged, List.mem_map, and_assoc]
  refine and_congr_right fun _ => ⟨?_, ?_⟩
  · rintro ⟨queue, log⟩ a (⟨e, member, rfl⟩ | ⟨e, member, rfl⟩)
    · exact queue e member
    · exact log e member
  · intro below
    exact ⟨fun e member => below _ (.inl ⟨e, member, rfl⟩),
      fun e member => below _ (.inr ⟨e, member, rfl⟩)⟩

theorem lastExec_lt_of_seqsBelow {r : Record} {limit : Nat} (below : r.seqsBelow limit = true) :
    r.lastExec < limit := by
  obtain ⟨seq, mentions⟩ := seqsBelow_iff.mp below
  have : r.lastExec ≤ limit - 1 := largestSeq_le fun a shown => by
    have := mentions a (.inr shown)
    omega
  omega

end Record

/-! ### The phases of a round -/

namespace Agreement

/-- Every request that a record of the table shows is of a kind. -/
def Mentions (kind : AssignedRequest → Prop) (s : Agreement) : Prop :=
  ∀ r ∈ s.records, r.Mentions kind

namespace Mentions

variable {site : Site} {s : Agreement} {kind : AssignedRequest → Prop}

theorem recordOf (mentions : s.Mentions kind) (k : NodeId) : (s.recordOf k).Mentions kind := by
  by_cases inTable : k < s.records.length
  · exact mentions _ (recordOf_mem inTable)
  · rw [recordOf_eq_blank (Nat.le_of_not_lt inTable)]
    exact .blank

theorem flushOwn (mentions : s.Mentions kind) : (s.flushOwn site).Mentions kind :=
  forall_updateOwn mentions fun _ => .new _

theorem honourFlush (mentions : s.Mentions kind) : (s.honourFlush site).Mentions kind := by
  unfold Agreement.honourFlush
  split
  · exact mentions.flushOwn
  · exact mentions

theorem findCommonHistory (mentions : s.Mentions kind) :
    (s.findCommonHistory site).Mentions kind := by
  unfold Agreement.findCommonHistory
  split
  · exact forall_updateOwn mentions fun own => own.of_eq rfl rfl
  · next holder _ =>
      apply forall_updateOwn mentions
      intro own
      have source := mentions.recordOf holder
      dsimp only
      split
      · exact own.of_eq rfl rfl
      · split
        · exact own.of_eq rfl rfl
        · exact .pruneExecuted (own.of_log source rfl rfl)

theorem trackView (mentions : s.Mentions kind) (view : View) :
    (s.trackView site view).Mentions kind := by
  unfold Agreement.trackView
  split
  · exact mentions
  · exact forall_updateOwn mentions fun own => own.of_eq rfl rfl

theorem leadView (mentions : s.Mentions kind) (view : View) :
    (s.leadView site view).Mentions kind := by
  unfold Agreement.leadView
  split
  · have renewed : (s.renewRequests site).Mentions kind :=
      forall_updateOwn mentions fun own => own.of_subset (by simp [Record.queued]) fun _ h => h
    exact forall_updateOwn renewed.findCommonHistory fun own =>
      own.of_eq rfl rfl
  · exact mentions

theorem followView (mentions : s.Mentions kind) (view : View) (primary : NodeId) :
    (s.followView site view primary).Mentions kind := by
  unfold Agreement.followView
  dsimp only
  split
  · exact mentions
  · exact forall_updateOwn mentions fun _ =>
      (mentions.recordOf primary).of_eq rfl rfl

theorem enterView (mentions : s.Mentions kind) (view : View) (primary : NodeId) :
    (s.enterView site view primary).Mentions kind := by
  have tracked : (s.trackView site view).Mentions kind := mentions.trackView view
  unfold Agreement.enterView
  dsimp only
  split
  · unfold changeView
    split
    · exact tracked.leadView view
    · exact tracked.followView view primary
  · exact tracked

theorem assign (mentions : s.Mentions kind) {view : View}
    (given : ∀ a ∈ s.assignments site view, kind a) : (s.assign site view).Mentions kind := by
  by_cases inTable : site.me < s.records.length
  · rw [assign_eq inTable]
    apply forall_updateOwn mentions
    intro own
    rintro a (queued | logged)
    · rw [Record.queued, List.map_append, List.mem_append, List.map_map] at queued
      cases queued with
      | inl old => exact own a (.inl old)
      | inr new => exact given a (by simpa [Function.comp_def, preparedEntry] using new)
    · exact own a (.inr logged)
  · rw [Agreement.assign, updateOwn_of_outside (Nat.le_of_not_lt inTable)]
    exact mentions

theorem acceptProposals (mentions : s.Mentions kind) (view : View) (primary : NodeId) :
    (s.acceptProposals site view primary).Mentions kind := by
  unfold Agreement.acceptProposals
  split
  · exact mentions
  · apply forall_updateOwn mentions
    intro own
    refine acceptProposals_induction (P := Record.Mentions kind) ?_ _ own
    intro r a proposed holds
    unfold acceptOne
    split
    · rintro b (queued | logged)
      · rw [Record.queued, List.map_append, List.mem_append] at queued
        cases queued with
        | inl old => exact holds b (.inl old)
        | inr isA =>
            obtain rfl : b = a := by simpa using isA
            exact mentions.recordOf primary b (.inl proposed)
      · exact holds b (.inr logged)
    · exact holds

theorem prepareToCommit (mentions : s.Mentions kind) : (s.prepareToCommit site).Mentions kind :=
  forall_updateOwn mentions fun own =>
    own.of_eq (map_request_status ..) rfl

theorem commit (mentions : s.Mentions kind) : (s.commit site).1.Mentions kind := by
  refine commitUpTo_induction (P := Agreement.Mentions kind) ?_ _ mentions
  intro s a holds next _
  refine forall_updateOwn holds fun own => own.apply ?_ _ _
  exact own a (.inl (of_nextCommitted next).1)

theorem tidy (mentions : s.Mentions kind) (view : View) : (s.tidy site view).Mentions kind := by
  unfold Agreement.tidy
  have remembered : (s.updateOwn site fun r =>
      { r with
        log := r.log.map fun e =>
          { e with executedBy := e.executedBy.union (s.committedBy site e.request) } }).Mentions
      kind :=
    forall_updateOwn mentions fun own =>
      own.of_eq rfl (map_request_executedBy ..)
  refine forall_updateOwn remembered fun own => .pruneExecuted ?_
  split
  · exact own
  · exact own.of_subset (List.map_subset _ List.filter_sublist.subset) fun _ h => h

theorem proceed (mentions : s.Mentions kind) {answers : Answers} {view : View} {primary : NodeId}
    (given : ∀ a ∈ s.proceedAssigns site answers view primary, kind a) :
    (s.proceed site answers view primary).1.Mentions kind := by
  have found : (s.findCommonHistory site).Mentions kind := mentions.findCommonHistory
  unfold Agreement.proceed
  unfold proceedAssigns at given
  dsimp only at *
  refine Mentions.tidy ?_ view
  split
  · exact found
  · next working =>
      unfold agree
      dsimp only
      refine Mentions.commit (.prepareToCommit (.acceptProposals ?_ view primary))
      split
      · next assigning =>
          refine found.assign fun a numbered => given a ?_
          rwa [if_pos (by simp_all)]
      · exact found

/-- After a round the table shows what it showed before, and what the round has assigned. -/
theorem round (mentions : s.Mentions kind) {answers : Answers}
    (given : ∀ a ∈ s.roundAssigns site answers, kind a) :
    (s.round site answers).state.Mentions kind := by
  have honoured : (s.honourFlush site).Mentions kind := mentions.honourFlush
  rw [state_round]
  unfold roundAssigns at given
  cases reported : answers.viewOf site.me with
  | tee => exact honoured
  | id primary =>
      have entered : ((s.honourFlush site).enterView site (.id primary) primary).Mentions kind :=
        honoured.enterView (.id primary) primary
      rw [reported] at given
      dsimp only at given ⊢
      rw [actIn_eq]
      split
      · exact Mentions.flushOwn entered
      · next stays =>
          rw [if_neg stays] at given
          exact entered.proceed given

/-! ### Between rounds -/

theorem submit (mentions : s.Mentions kind) (site : Site) (q : ClientRequest) :
    ((s.submit site q).toOption.getD s).Mentions kind := by
  rcases submit_eq_or site s q with same | ⟨_, buffered⟩
  · rw [same]
    exact mentions
  · rw [buffered]
    exact forall_updateOwn mentions fun own => own.of_eq rfl rfl

theorem receive (mentions : s.Mentions kind) (site : Site) {r : Record} (ofR : r.Mentions kind)
    (sender : NodeId) : (s.receive site sender r).Mentions kind := by
  unfold Agreement.receive
  split
  · intro t member
    rcases List.mem_or_eq_of_mem_set member with old | rfl
    · exact mentions t old
    · exact ofR.sanitize _ _ _
  · exact mentions

end Mentions

end Agreement

end QuorumList
