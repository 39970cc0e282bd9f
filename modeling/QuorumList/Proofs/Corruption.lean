import Mathlib.Data.List.Chain
import QuorumList.Proofs.Changes
import QuorumList.Proofs.Ensemble

/-!
When a replica finds its own record corrupt.

A replica flushes when its record is corrupt: a number near the bound, a request in two places, a
gap in the log, or a log entry for which no adopting quorum vouches.  It copies logs from records
that `sound` admits, and `sound` looks at the first three only.  So over a mostly genuine table the
first three never come up, and an entry without a quorum is always one that a process shows which is
not correct.  Such a process gets others to flush: `flushes_iff_unvouched` says when.
-/
namespace QuorumList

namespace Record

variable {r : Record} {a : AssignedRequest}

theorem anyGap_eq_false_iff {requests : List AssignedRequest} :
    anyGap requests = false ↔
      requests.IsChain fun a b => a.seq ≠ Json.maxUnsigned ∧ a.seq + 1 = b.seq := by
  induction requests with
  | nil => simp [anyGap]
  | cons a rest ih =>
      cases rest with
      | nil => simp [anyGap]
      | cons b rest =>
          rw [List.isChain_cons_cons, ← ih]
          simp only [anyGap, Bool.or_eq_false_iff, decide_eq_false_iff_not, not_not]

/-- Executing the next request leaves no gap. -/
theorem logGaps_apply (noGap : r.logGaps = false) (next : a.seq = r.lastExec + 1)
    (room : r.lastExec ≠ Json.maxUnsigned) (executedBy : NodeSet) (capacity : Nat) :
    (r.apply a executedBy capacity).logGaps = false := by
  have rising := pairwise_seq_of_logGaps noGap
  rw [logGaps, anyGap_eq_false_iff] at noGap ⊢
  rw [logged_apply]
  refine List.IsChain.drop (List.isChain_append.mpr ⟨noGap, .singleton a, ?_⟩) _
  intro last isLast b isNext
  obtain rfl : a = b := by simpa using isNext
  -- In a log that rises, the last entry has the largest number.
  obtain ⟨before, log⟩ := List.getLast?_eq_some_iff.mp isLast
  have largest : r.lastExec = last.seq := by
    apply Nat.le_antisymm
    · refine largestSeq_le fun b shown => ?_
      rw [log] at shown rising
      rcases List.mem_append.mp shown with old | new
      · exact Nat.le_of_lt ((List.pairwise_append.mp rising).2.2 b old last (by simp))
      · exact Nat.le_of_eq (by rw [List.mem_singleton.mp new])
    · exact seq_le_largestSeq (List.mem_of_getLast? isLast)
  rw [← largest]
  exact ⟨room, next.symm⟩

end Record

namespace Agreement

variable {site : Site} {s t : Agreement} {r r' source other : Record}
  {given : List AssignedRequest} {correct : NodeId → Bool} {line : List AssignedRequest}

/-! ### Sound records -/

/-- A record is sound that has its queue and its log from sound ones. -/
theorem sound_of_parts (ofQueue : sound site r = true) (ofLog : sound site source = true)
    (seq : other.seq < site.cluster.seqLimit) (queue : other.queued.Sublist r.queued)
    (log : other.logged = source.logged) : sound site other = true := by
  obtain ⟨below, _, once⟩ := sound_iff.mp ofQueue
  obtain ⟨sourceBelow, noGap, _⟩ := sound_iff.mp ofLog
  refine sound_iff.mpr ⟨Record.seqsBelow_iff.mpr ⟨seq, ?_⟩, ?_, ?_⟩
  · rintro a (queued | logged)
    · exact (Record.seqsBelow_iff.mp below).2 a (.inl (queue.subset queued))
    · exact (Record.seqsBelow_iff.mp sourceBelow).2 a (.inr (log ▸ logged))
  · rw [Record.logGaps, log]
    exact noGap
  · exact Record.anyReassigned_eq_false_iff.mpr
      (List.Pairwise.sublist queue (Record.anyReassigned_eq_false_iff.mp once))

/-- A change that takes nothing new into the queue and the log keeps a record sound. -/
theorem sound_of_sublist (before : sound site r = true)
    (seq : other.seq < site.cluster.seqLimit) (queue : other.queued.Sublist r.queued)
    (log : other.logged = r.logged) : sound site other = true :=
  sound_of_parts before before seq queue log

/-- Unless the round assigns, moving requests on keeps the own record sound. -/
theorem Change.isSound (change : Change site s [] r r') (before : sound site r = true) :
    sound site r' = true := by
  obtain ⟨below, noGap, once⟩ := sound_iff.mp before
  obtain ⟨seq, mentions⟩ := Record.seqsBelow_iff.mp below
  cases change with
  | flag conflict => exact before
  | adopt another isSound =>
      exact sound_of_parts before isSound seq (List.filter_sublist.map _) rfl
  | assign settled fresh =>
      refine sound_of_sublist before ?_ (by simp [Record.queued]) rfl
      exact Nat.max_lt.mpr ⟨seq, Record.lastExec_lt_of_seqsBelow below⟩
  | @accept view primary a settled another proposed acceptable =>
      refine sound_iff.mpr ⟨Record.seqsBelow_iff.mpr ⟨seq, ?_⟩, noGap, ?_⟩
      · rintro b (queued | logged)
        · rw [Record.queued, List.map_append, List.mem_append] at queued
          rcases queued with old | new
          · exact mentions b (.inl old)
          · rw [List.mem_singleton.mp new]
            exact (acceptsProposal_iff.mp acceptable).2.1.2.1
        · exact mentions b (.inr logged)
      · exact placedOnce_of_acceptsProposal once acceptable
  | prepare chosen =>
      refine sound_of_sublist before seq ?_ rfl
      rw [Record.queued, map_request_status]
      exact .refl _
  | @execute a executedBy next quorum =>
      obtain ⟨queued, number, room⟩ := of_nextCommitted next
      refine sound_iff.mpr ⟨Record.seqsBelow_iff.mpr ⟨seq, ?_⟩, ?_, ?_⟩
      · exact mentions.apply (mentions a (.inl queued)) _ _
      · exact Record.logGaps_apply noGap number room _ _
      · exact Record.anyReassigned_eq_false_iff.mpr (List.Pairwise.sublist
          (List.filter_sublist.map _) (Record.anyReassigned_eq_false_iff.mp once))
  | remember supporters =>
      exact sound_of_sublist before seq (.refl _) (map_request_executedBy ..)
  | drop keep => exact sound_of_sublist before seq (List.filter_sublist.map _) rfl
  | prune => exact sound_of_sublist before seq (List.filter_sublist.map _) rfl

theorem Entry.isSound (entry : Entry site s r r') (before : sound site r = true) :
    sound site r' = true := by
  cases entry with
  | note view => exact before
  | renew requests =>
      exact sound_of_sublist before
        (Record.lastExec_lt_of_seqsBelow (sound_iff.mp before).1) (List.nil_sublist _) rfl
  | change change => exact change.isSound before
  | lead => exact before
  | copy another isSound => exact isSound

theorem sound_new (isSound : sound site r = true) (clients : Nat) :
    sound site (.new clients) = true := by
  have positive : 0 < site.cluster.seqLimit :=
    Nat.zero_lt_of_lt (Record.seqsBelow_iff.mp (sound_iff.mp isSound).1).1
  exact sound_iff.mpr ⟨Record.seqsBelow_iff.mpr ⟨positive, .new _⟩, rfl, rfl⟩

theorem sound_own_enterView (inTable : site.me < s.records.length)
    (before : sound site (s.own site) = true) (view : View) (primary : NodeId) :
    sound site ((s.enterView site view primary).own site) = true :=
  (reached_enterView inTable view primary).own_of_keeps before fun _ _ entry => entry.isSound

theorem sound_own_proceed (inTable : site.me < s.records.length)
    (before : sound site (s.own site) = true) {answers : Answers} {view : View} {primary : NodeId}
    (nothing : s.proceedAssigns site answers view primary = []) :
    sound site ((s.proceed site answers view primary).1.own site) = true :=
  (reached_proceed inTable answers view primary).own_of_keeps before fun _ _ change =>
    (nothing ▸ change).isSound

/-- A round that assigns nothing keeps the own record sound, whatever others report. -/
theorem sound_own_round (inTable : site.me < s.records.length)
    (before : sound site (s.own site) = true) {answers : Answers}
    (nothing : s.roundAssigns site answers = []) :
    sound site ((s.round site answers).state.own site) = true := by
  have honoured : sound site ((s.honourFlush site).own site) = true := by
    rcases recordOf_honourFlush inTable site.me with old | ⟨_, new⟩
    · exact (congrArg (sound site) old).trans before
    · exact (congrArg (sound site) new).trans (sound_new before _)
  rw [state_round]
  unfold roundAssigns at nothing
  cases seen : answers.viewOf site.me with
  | tee => exact honoured
  | id primary =>
      have inHonoured : site.me < (s.honourFlush site).records.length := by
        rwa [length_records_honourFlush]
      have inEntered : site.me <
          ((s.honourFlush site).enterView site (.id primary) primary).records.length := by
        rwa [length_records_enterView]
      have entered := sound_own_enterView inHonoured honoured (.id primary) primary
      rw [seen] at nothing
      dsimp only at nothing ⊢
      rw [actIn_eq]
      cases must : ((s.honourFlush site).enterView site (.id primary) primary).mustFlush site with
      | true => exact (congrArg (sound site) (own_updateOwn inEntered _)).trans (sound_new before _)
      | false =>
          rw [must] at nothing
          exact sound_own_proceed inEntered entered nothing

/-! ### Entries without a quorum -/

/-- An adopting quorum vouches for the entry, or a process that is not correct shows its request
with no more processes in a sound record. -/
def Explained (site : Site) (correct : NodeId → Bool) (s : Agreement) (e : LogEntry) : Prop :=
  site.cluster.adoptQuorum ≤ e.executedBy.card ∨
    ∃ k < site.cluster.size, correct k = false ∧ sound site (s.recordOf k) = true ∧
      ∃ shown ∈ (s.recordOf k).log,
        shown.request = e.request ∧ shown.executedBy.card ≤ e.executedBy.card

/-- More processes that have executed a request explain it no worse. -/
theorem Explained.union {e : LogEntry} (explained : Explained site correct s e)
    (more : NodeSet) :
    Explained site correct s { e with executedBy := e.executedBy.union more } := by
  have grows : e.executedBy.card ≤ (e.executedBy.union more).card :=
    NodeSet.card_le_card_union ..
  rcases explained with quorum | ⟨k, inRange, faulty, isSound, shown, member, same, fewer⟩
  · exact .inl (Nat.le_trans quorum grows)
  · exact .inr ⟨k, inRange, faulty, isSound, shown, member, same, Nat.le_trans fewer grows⟩

section Explained

variable (others : ∀ k, k ≠ site.me → sound site (s.recordOf k) = true →
  ∀ e ∈ (s.recordOf k).log, Explained site correct t e)
include others

theorem Change.explained (change : Change site s given r r')
    (before : ∀ e ∈ r.log, Explained site correct t e) :
    ∀ e ∈ r'.log, Explained site correct t e := by
  intro e member
  cases change with
  | adopt another isSound => exact others _ another isSound e member
  | execute next quorum =>
      rcases List.mem_append.mp (Record.mem_lastEntries member) with old | new
      · exact before e old
      · rw [List.mem_singleton.mp new]
        exact .inl quorum
  | remember supporters =>
      obtain ⟨old, inLog, rfl⟩ := List.mem_map.mp member
      exact (before old inLog).union _
  | flag | assign | accept | prepare | drop | prune => exact before e member

theorem Entry.explained (entry : Entry site s r r')
    (before : ∀ e ∈ r.log, Explained site correct t e) :
    ∀ e ∈ r'.log, Explained site correct t e := by
  cases entry with
  | change change => exact change.explained others before
  | copy another isSound => exact others _ another isSound
  | note | renew | lead => exact before

end Explained

/-! ### Tables in order -/

/-- The records of all but `F` processes, the own one among them, are sound, genuine for one line
and vouched for, and report no conflict. -/
structure WellVouched (site : Site) (line : List AssignedRequest) (correct : NodeId → Bool)
    (s : Agreement) : Prop extends s.MostlyGenuine site line correct where
  vouched : ∀ k < site.cluster.size, correct k = true → (s.recordOf k).Vouched site.cluster
  calm : ∀ k < site.cluster.size, correct k = true → (s.recordOf k).conflict = false

instance : Decidable (s.WellVouched site line correct) :=
  decidable_of_iff
    (s.MostlyGenuine site line correct ∧
      (∀ k < site.cluster.size, correct k = true → (s.recordOf k).Vouched site.cluster) ∧
      ∀ k < site.cluster.size, correct k = true → (s.recordOf k).conflict = false)
    ⟨fun ⟨mostly, vouched, calm⟩ => ⟨mostly, vouched, calm⟩,
      fun ⟨mostly, vouched, calm⟩ => ⟨mostly, vouched, calm⟩⟩

namespace WellVouched

theorem own_sound (well : s.WellVouched site line correct) : sound site (s.own site) = true :=
  well.isSound site.me well.member well.own

theorem honourFlush (well : s.WellVouched site line correct) :
    (s.honourFlush site).WellVouched site line correct := by
  have each : ∀ P : Record → Prop, P (.new site.cluster.clients) →
      (∀ k < site.cluster.size, correct k = true → P (s.recordOf k)) →
      ∀ k < site.cluster.size, correct k = true → P ((s.honourFlush site).recordOf k) := by
    intro P ofNew before k inRange isCorrect
    rcases recordOf_honourFlush well.inTable k with old | ⟨_, new⟩
    · rw [old]
      exact before k inRange isCorrect
    · rw [new]
      exact ofNew
  exact
    { length := length_records_honourFlush.trans well.length
      member := well.member
      own := well.own
      most := well.most
      isSound := each (sound site · = true) (sound_new well.own_sound _) well.isSound
      genuine := each _ (.of_empty rfl rfl) well.genuine
      vouched := each _ (Record.vouched_new _ _) well.vouched
      calm := each (Record.conflict · = false) rfl well.calm }

/-! ### No conflict -/

/-- On entering a view a common history is always found. -/
theorem conflict_own_enterView (configured : site.cluster.Configured) (numbered : Numbered line)
    (bound : 5 * site.cluster.faults < site.cluster.size)
    (well : s.WellVouched site line correct) (view : View) (primary : NodeId) :
    ((s.enterView site view primary).own site).conflict = false := by
  have before : (s.own site).conflict = false := well.calm site.me well.member well.own
  obtain ⟨mostly, calm⟩ : (s.trackView site view).MostlyGenuine site line correct ∧
      ((s.trackView site view).own site).conflict = false := by
    unfold trackView
    split
    · exact ⟨well.toMostlyGenuine, before⟩
    · refine ⟨well.toMostlyGenuine.updateOwn id fun genuine => genuine.congr rfl rfl, ?_⟩
      exact (apply_own_updateOwn Record.conflict (by intro r; rfl)).trans before
  unfold enterView changeView leadView followView
  dsimp only
  split
  · split
    · split
      · refine (apply_own_updateOwn Record.conflict (by intro r; rfl)).trans ?_
        exact (findCommonHistory_genuine_iff configured numbered bound mostly.renewRequests).1
      · exact calm
    · split
      · exact calm
      · exact (apply_own_updateOwn Record.conflict (by intro r; rfl)).trans calm
  · exact calm

theorem conflict_enterView (configured : site.cluster.Configured) (numbered : Numbered line)
    (bound : 5 * site.cluster.faults < site.cluster.size)
    (well : s.WellVouched site line correct) (view : View) (primary : NodeId) :
    (s.enterView site view primary).conflict site = false := by
  have reached := reached_enterView well.inTable view primary
  rw [conflict, decide_eq_false_iff_not, countP_records (reached.length.trans well.length)]
  have few := well.countP_le fun k => ((s.enterView site view primary).recordOf k).conflict
  have none : (site.cluster.nodes.countP fun k =>
      correct k && ((s.enterView site view primary).recordOf k).conflict) = 0 := by
    rw [List.countP_eq_zero]
    intro k member both
    rw [Bool.and_eq_true] at both
    have quiet : ((s.enterView site view primary).recordOf k).conflict = false := by
      by_cases isMe : k = site.me
      · subst isMe
        exact well.conflict_own_enterView configured numbered bound view primary
      · rw [reached.others k isMe]
        exact well.calm k (List.mem_range.mp member) both.1
    rw [quiet] at both
    exact Bool.noConfusion both.2
  simp only [Cluster.establishQuorum]
  omega

theorem mustFlush_enterView_iff (configured : site.cluster.Configured) (numbered : Numbered line)
    (bound : 5 * site.cluster.faults < site.cluster.size)
    (well : s.WellVouched site line correct) (view : View) (primary : NodeId) :
    (s.enterView site view primary).mustFlush site = true ↔
      site.switches.nonSelfStab = false ∧
        ¬((s.enterView site view primary).own site).Vouched site.cluster := by
  rw [← corrupt_iff_of_sound (sound_own_enterView well.inTable well.own_sound view primary),
    mustFlush, well.conflict_enterView configured numbered bound]
  simp

/-! ### What a round takes over -/

theorem explained_other (well : s.WellVouched site line correct) (k : NodeId)
    (isSound : sound site (s.recordOf k) = true) :
    ∀ e ∈ (s.recordOf k).log, Explained site correct s e := by
  intro e member
  by_cases inRange : k < site.cluster.size
  · cases isCorrect : correct k with
    | true => exact .inl (well.vouched k inRange isCorrect e member)
    | false => exact .inr ⟨k, inRange, isCorrect, isSound, e, member, rfl, Nat.le_refl _⟩
  · rw [recordOf_eq_blank (by rw [well.length]; exact Nat.le_of_not_lt inRange)] at member
    exact absurd member List.not_mem_nil

theorem explained_enterView (well : s.WellVouched site line correct) (view : View)
    (primary : NodeId) :
    ∀ e ∈ ((s.enterView site view primary).own site).log, Explained site correct s e :=
  (reached_enterView well.inTable view primary).own_of_keeps
    (P := fun r => ∀ e ∈ r.log, Explained site correct s e)
    (well.explained_other site.me well.own_sound)
    fun _ _ entry => entry.explained fun k _ => well.explained_other k

theorem explained_proceed (well : s.WellVouched site line correct) (answers : Answers)
    (view : View) (primary : NodeId) :
    ∀ e ∈ (((s.enterView site view primary).proceed site answers view primary).1.own site).log,
      Explained site correct s e := by
  have entered := reached_enterView well.inTable view primary
  refine (reached_proceed (entered.inTable well.inTable) answers view primary).own_of_keeps
    (P := fun r => ∀ e ∈ r.log, Explained site correct s e)
    (well.explained_enterView view primary) fun _ _ change => change.explained fun k another => ?_
  rw [entered.others k another]
  exact well.explained_other k

end WellVouched

/-- What a flush throws away explains nothing, as the own record is correct. -/
theorem Explained.of_honourFlush (inTable : site.me < s.records.length)
    (isCorrect : correct site.me = true) {e : LogEntry}
    (explained : Explained site correct (s.honourFlush site) e) : Explained site correct s e := by
  rcases explained with quorum | ⟨k, inRange, faulty, rest⟩
  · exact .inl quorum
  · have another : k ≠ site.me := by
      rintro rfl
      rw [isCorrect] at faulty
      contradiction
    have same := (recordOf_honourFlush inTable k).resolve_right fun new => another new.1
    rw [same] at rest
    exact .inr ⟨k, inRange, faulty, rest⟩

/-! ### When a round flushes -/

/-- The table once a round has entered the view that it sees. -/
def roundEntered (site : Site) (answers : Answers) (s : Agreement) : Agreement :=
  match answers.viewOf site.me with
  | .tee => s.honourFlush site
  | .id primary => (s.honourFlush site).enterView site (.id primary) primary

namespace WellVouched

theorem explained_roundEntered (well : s.WellVouched site line correct) (answers : Answers) :
    ∀ e ∈ ((s.roundEntered site answers).own site).log, Explained site correct s e := by
  have honoured := well.honourFlush
  intro e member
  apply Explained.of_honourFlush well.inTable well.own
  unfold roundEntered at member
  cases seen : answers.viewOf site.me with
  | tee =>
      rw [seen] at member
      exact honoured.explained_other site.me honoured.own_sound e member
  | id primary =>
      rw [seen] at member
      exact honoured.explained_enterView _ _ e member

theorem explained_round (well : s.WellVouched site line correct) (answers : Answers) :
    ∀ e ∈ ((s.round site answers).state.own site).log, Explained site correct s e := by
  have honoured := well.honourFlush
  intro e member
  apply Explained.of_honourFlush well.inTable well.own
  rw [state_round] at member
  cases seen : answers.viewOf site.me with
  | tee =>
      rw [seen] at member
      exact honoured.explained_other site.me honoured.own_sound e member
  | id primary =>
      rw [seen] at member
      dsimp only at member
      rw [actIn_eq] at member
      split at member
      · have inEntered : site.me <
            ((s.honourFlush site).enterView site (.id primary) primary).records.length := by
          rw [length_records_enterView]
          exact honoured.inTable
        have flushed : ((((s.honourFlush site).enterView site (.id primary) primary).flushOwn
            site).own site) = .new site.cluster.clients := own_updateOwn inEntered _
        have none : e ∈ (Record.new site.cluster.clients).log := flushed ▸ member
        exact absurd none List.not_mem_nil
      · exact honoured.explained_proceed answers _ _ e member

end WellVouched

/-- Over a table in order a round flushes the record with which it has entered the view exactly when
no quorum vouches for some entry of its log, and so it is with a corrupt record that a round leaves
when it assigns nothing.  Such an entry is one that a process shows which is not correct. -/
theorem flushes_iff_unvouched (configured : site.cluster.Configured) (numbered : Numbered line)
    (bound : 5 * site.cluster.faults < site.cluster.size)
    (well : s.WellVouched site line correct) (answers : Answers) :
    (Event.localFlush ∈ (s.round site answers).events ↔
        s.flush = true ∨ site.switches.nonSelfStab = false ∧
          ¬((s.roundEntered site answers).own site).Vouched site.cluster) ∧
      (s.roundAssigns site answers = [] →
        ((s.round site answers).state.corrupt site = true ↔
          ¬((s.round site answers).state.own site).Vouched site.cluster)) ∧
      ∀ e, e ∈ ((s.roundEntered site answers).own site).log ∨
          e ∈ ((s.round site answers).state.own site).log → Explained site correct s e := by
  have honoured := well.honourFlush
  refine ⟨?_, ?_, ?_⟩
  · rw [localFlush_mem_events_round]
    refine or_congr_right ?_
    unfold roundEntered
    cases answers.viewOf site.me with
    | tee =>
        have vouched : ((s.honourFlush site).own site).Vouched site.cluster :=
          honoured.vouched site.me honoured.member honoured.own
        simp [vouched]
    | id primary =>
        simp only [View.id.injEq, exists_eq_left']
        exact honoured.mustFlush_enterView_iff configured numbered bound _ _
  · intro nothing
    exact corrupt_iff_of_sound (sound_own_round well.inTable well.own_sound nothing)
  · rintro e (ofEntered | ofAfter)
    · exact well.explained_roundEntered answers e ofEntered
    · exact well.explained_round answers e ofAfter

/-- A process that makes up a list gets nobody to flush as long as its log names a quorum. -/
theorem vouched_record_flushes_nobody :
    Event.localFlush ∉
        (laggingTable.round (sampleSite 0) (Ensemble.reporting 1)).events ∧
      ((laggingTable.round (sampleSite 0) (Ensemble.reporting 1)).state.corrupt
        (sampleSite 0)) = false := by
  have well : laggingTable.WellVouched (sampleSite 0) (sampleLine 10) fun k => k < 5 := by
    decide +kernel
  obtain ⟨flushes, corrupt, explained⟩ := flushes_iff_unvouched (.new 6 1) (by decide) (by decide)
    well (Ensemble.reporting 1)
  have vouched : ∀ e, Explained (sampleSite 0) (fun k => k < 5) laggingTable e →
      (sampleSite 0).cluster.adoptQuorum ≤ e.executedBy.card := by
    have shownVouched : ∀ k < 6, ∀ shown ∈ (laggingTable.recordOf k).log,
        4 ≤ shown.executedBy.card := by decide +kernel
    rintro e (quorum | ⟨k, inRange, _, _, shown, member, _, fewer⟩)
    · exact quorum
    · exact Nat.le_trans (shownVouched k inRange shown member) fewer
  refine ⟨?_, ?_⟩
  · rw [flushes]
    rintro (flush | ⟨_, unvouched⟩)
    · exact Bool.noConfusion flush
    · exact unvouched fun e member => vouched e (explained e (.inl member))
  · rw [Bool.eq_false_iff]
    intro isCorrupt
    have nothing : laggingTable.roundAssigns (sampleSite 0) (Ensemble.reporting 1) = [] := by
      simp [roundAssigns, proceedAssigns, Ensemble.reporting, sampleSite]
    exact (corrupt nothing).mp isCorrupt fun e member => vouched e (explained e (.inr member))

/-- The record of a replica that names nobody who has executed the requests of its log. -/
def unvouchedRecord (length : Nat) : Record :=
  { honestRecord length with
    log := (honestRecord length).log.map fun e => { e with executedBy := .empty } }

/-- Process 4 has fallen behind, and process 5 names nobody who has executed its log. -/
def unvouchedTable : Agreement :=
  sampleTable
    [ honestRecord 10, honestRecord 10, honestRecord 10, honestRecord 2, honestRecord 2,
      unvouchedRecord 5 ]

/-- One record without a quorum is enough: as that of a new primary it makes process 1 flush, and
process 4 adopts it and is corrupt in the end. -/
theorem unvouched_record_corrupts :
    (sampleSite 1).cluster.Configured ∧ Numbered (sampleLine 10) ∧
      5 * (sampleSite 1).cluster.faults < (sampleSite 1).cluster.size ∧
      (∀ r ∈ (waitingTable (unvouchedRecord 2)).records ++ unvouchedTable.records,
        sanitizeRecord (sampleSite 1) r = r) ∧
      ((waitingTable (unvouchedRecord 2)).WellVouched (sampleSite 1) (sampleLine 10)
          (fun k => k ≠ 0) ∧
        (waitingTable (unvouchedRecord 2)).flush = false ∧
        .localFlush ∈ ((waitingTable (unvouchedRecord 2)).round (sampleSite 1)
          (Ensemble.reporting 0)).events) ∧
      unvouchedTable.WellVouched (sampleSite 4) (sampleLine 10) (fun k => k ≠ 5) ∧
      unvouchedTable.roundAssigns (sampleSite 4) (Ensemble.reporting 0) = [] ∧
      (unvouchedTable.round (sampleSite 4) (Ensemble.reporting 0)).state.corrupt
        (sampleSite 4) = true := by
  have flushes : ((waitingTable (unvouchedRecord 2)).enterView (sampleSite 1) (.id 0) 0).mustFlush
      (sampleSite 1) = true := by decide +kernel
  have calm : (unvouchedTable.enterView (sampleSite 4) (.id 0) 0).mustFlush (sampleSite 4) =
      false := by decide +kernel
  refine ⟨.new 6 1, by decide, by decide, by decide +kernel, ⟨by decide +kernel, rfl, ?_⟩,
    by decide +kernel, ?_, ?_⟩
  · exact localFlush_mem_events_round.mpr (.inr ⟨0, rfl, flushes⟩)
  · simp [roundAssigns, proceedAssigns, Ensemble.reporting, sampleSite]
  · rw [state_round_of_calm rfl rfl calm]
    cbv

end Agreement

end QuorumList
