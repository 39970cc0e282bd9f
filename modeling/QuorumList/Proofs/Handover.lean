import QuorumList.Proofs.Adoption
import QuorumList.Proofs.Provenance

/-!
Copying the record of a new primary.

A follower that waits in a new view copies the record of its primary as it stands, once
`acceptsNewPrimary` finds the record sound, consistent with the records of an adopting quorum, and
no further back than the last common execution.  These checks bind the record only where it meets
other records: at numbers that the others still hold, and in the list at equal progress.  Beyond
that the primary is free, so that it may hand over requests that nobody else has executed yet.
`changeView_genuine_iff` says what is bound over a mostly genuine table.
-/
namespace QuorumList.Agreement

variable {site : Site} {s : Agreement}

/-! ### Where the new primary starts -/

namespace MostlyGenuine

variable {line : List AssignedRequest} {correct : NodeId → Bool}

/-- A change that keeps the own record sound and genuine keeps the table mostly genuine. -/
theorem updateOwn (mostly : s.MostlyGenuine site line correct) {f : Record → Record}
    (isSound : sound site (s.own site) = true → sound site (f (s.own site)) = true)
    (genuine : (s.own site).Genuine site.cluster.logCapacity line →
      (f (s.own site)).Genuine site.cluster.logCapacity line) :
    (s.updateOwn site f).MostlyGenuine site line correct where
  length := by rw [length_records_updateOwn, mostly.length]
  member := mostly.member
  own := mostly.own
  most := mostly.most
  isSound := by
    intro k inRange isCorrect
    have before := mostly.isSound k inRange isCorrect
    by_cases isMe : k = site.me
    · subst isMe
      have changed : (s.updateOwn site f).recordOf site.me = f (s.own site) :=
        own_updateOwn mostly.inTable f
      rw [changed]
      exact isSound before
    · rw [recordOf_updateOwn_of_ne isMe]
      exact before
  genuine := by
    intro k inRange isCorrect
    have before := mostly.genuine k inRange isCorrect
    by_cases isMe : k = site.me
    · subst isMe
      have changed : (s.updateOwn site f).recordOf site.me = f (s.own site) :=
        own_updateOwn mostly.inTable f
      rw [changed]
      exact genuine before
    · rw [recordOf_updateOwn_of_ne isMe]
      exact before

/-- Renewing its requests leaves the history of the primary alone, and its record sound. -/
theorem renewRequests (mostly : s.MostlyGenuine site line correct) :
    (s.renewRequests site).MostlyGenuine site line correct := by
  refine mostly.updateOwn (fun before => ?_) fun before => before.congr rfl rfl
  obtain ⟨below, noGap, _⟩ := sound_iff.mp before
  refine sound_iff.mpr ⟨?_, noGap, rfl⟩
  exact Record.seqsBelow_iff.mpr ⟨Record.lastExec_lt_of_seqsBelow below,
    (Record.seqsBelow_iff.mp below).2.of_subset (by simp [Record.queued]) fun _ logged => logged⟩

end MostlyGenuine

/-- When everybody is genuine, a new primary gives out numbers behind what it has executed itself,
or an adopting quorum has.  What fewer processes have executed it may give to other requests. -/
theorem le_lastExec_leadView_iff {line : List AssignedRequest} {view : View}
    (configured : site.cluster.Configured) (numbered : Numbered line)
    (enough : site.cluster.adoptQuorum ≤ site.cluster.size)
    (everybody : s.MostlyGenuine site line fun _ => true)
    (ready : site.cluster.establishQuorum ≤ s.readyFor view) (number : Nat) :
    number ≤ ((s.leadView site view).own site).lastExec ↔
      number ≤ (s.own site).lastExec ∨ site.cluster.adoptQuorum ≤
        site.cluster.nodes.countP fun k => number ≤ (s.recordOf k).lastExec := by
  have same : ∀ k, ((s.renewRequests site).recordOf k).lastExec = (s.recordOf k).lastExec := by
    intro k
    by_cases isMe : k = site.me
    · subst isMe
      exact apply_own_updateOwn Record.lastExec (by intro r; rfl)
    · rw [Agreement.renewRequests, recordOf_updateOwn_of_ne isMe]
  have found := le_lastExec_findCommonHistory_iff configured numbered enough
    everybody.renewRequests number
  simp only [own, same] at found
  unfold leadView
  rw [if_pos ready]
  have kept : ((((s.renewRequests site).findCommonHistory site).updateOwn site fun r =>
      { r with viewChanged := false }).own site).lastExec =
        (((s.renewRequests site).findCommonHistory site).own site).lastExec :=
    apply_own_updateOwn Record.lastExec (by intro r; rfl)
  rw [kept]
  exact found

/-! ### What the follower has checked -/

theorem acceptsNewPrimary_iff {primary : NodeId} :
    s.acceptsNewPrimary site primary = true ↔
      sound site (s.recordOf primary) = true ∧
        site.cluster.adoptQuorum ≤
          s.records.countP (fun r => r.consistentWith (s.recordOf primary)) ∧
        (∀ last, s.lastCommonExec site = some last → last ≤ (s.recordOf primary).lastExec) ∧
        (s.recordOf primary).lastExec ≤ (s.recordOf primary).seq ∧
        Record.largestSeq (s.recordOf primary).queued ≤ (s.recordOf primary).seq := by
  cases common : s.lastCommonExec site with
  | none => simp [acceptsNewPrimary, common, and_assoc]
  | some last => simp [acceptsNewPrimary, common, and_assoc]

/-- The last common execution is no smaller than any number whose log entry is widely shared. -/
theorem exists_lastCommonExec {a : AssignedRequest} (held : a ∈ (s.own site).logged)
    (shared : site.cluster.adoptQuorum ≤
      site.cluster.nodes.countP fun k => (s.recordOf k).hasLogged a) :
    ∃ last, s.lastCommonExec site = some last ∧ a.seq ≤ last := by
  have listed : a.seq ∈ (((s.own site).logged.filter fun b =>
      site.cluster.adoptQuorum ≤ (s.supporters site fun r => r.hasLogged b).card).map
        AssignedRequest.seq) := by
    refine List.mem_map_of_mem (List.mem_filter.mpr ⟨held, ?_⟩)
    rw [supporters, NodeSet.card_filterBelow]
    exact decide_eq_true shared
  cases largest : s.lastCommonExec site with
  | none =>
      rw [lastCommonExec] at largest
      rw [List.max?_eq_none_iff.mp largest] at listed
      simp at listed
  | some last => exact ⟨last, rfl, (List.max?_eq_some_iff.mp largest).2 _ listed⟩

/-- A follower that no longer waits has copied the record of the primary, and had accepted it. -/
theorem of_followView_copied (inTable : site.me < s.records.length) {view : View}
    {primary : NodeId} (waiting : (s.own site).viewChanged = true)
    (copied : ((s.followView site view primary).own site).viewChanged = false) :
    (s.followView site view primary).own site = copyFrom (s.recordOf primary) (s.own site) ∧
      s.acceptsNewPrimary site primary = true := by
  unfold followView at *
  dsimp only at *
  split at copied
  · rw [waiting] at copied
    contradiction
  · next accepted =>
      rw [if_neg accepted]
      simp only [Bool.or_eq_true, Bool.not_eq_true', not_or, Bool.not_eq_false] at accepted
      exact ⟨own_updateOwn inTable _, accepted.2⟩

/-! ### What binds the copied record -/

/-- Over a mostly genuine table the record that a follower copies is genuine exactly when that of
the primary is.  It reaches every log entry that an adopting quorum shares, and it is consistent
with `2F + 1` genuine records.  Next to each of these it shows requests of the line wherever the
genuine log still reaches, and at equal progress its list is that of the line. -/
theorem changeView_genuine_iff {line : List AssignedRequest} {correct : NodeId → Bool}
    {primary : NodeId} {r : Record}
    (configured : site.cluster.Configured) (numbered : Numbered line)
    (mostly : s.MostlyGenuine site line correct)
    (another : primary ≠ site.me) (waiting : (s.own site).viewChanged = true)
    (result : (s.changeView site (.id primary) primary).own site = r)
    (copied : r.viewChanged = false) :
    (r.Genuine site.cluster.logCapacity line ↔
        (s.recordOf primary).Genuine site.cluster.logCapacity line) ∧
      (∀ a ∈ (s.own site).logged, site.cluster.adoptQuorum ≤
          (site.cluster.nodes.countP fun k => (s.recordOf k).hasLogged a) →
        a.seq ≤ r.lastExec) ∧
      site.cluster.weakQuorum ≤ (site.cluster.nodes.countP fun k =>
        correct k && (s.recordOf k).consistentWith r) ∧
      ∀ k < site.cluster.size, correct k = true → (s.recordOf k).consistentWith r = true →
        (∀ a ∈ r.logged, 1 ≤ a.seq → a.seq ≤ (s.recordOf k).lastExec →
          (s.recordOf k).lastExec < a.seq + site.cluster.logCapacity → a ∈ line) ∧
        (r.lastExec = (s.recordOf k).lastExec → r.state = stateAfter (line.take r.lastExec)) := by
  have room := configured.logCapacity_pos
  rw [changeView, if_neg another] at result
  obtain ⟨copy, accepts⟩ := of_followView_copied mostly.inTable waiting (result ▸ copied)
  obtain ⟨isSound, quorum, reaches, _⟩ := acceptsNewPrimary_iff.mp accepts
  obtain rfl : copyFrom (s.recordOf primary) (s.own site) = r := copy.symm.trans result
  rw [sound, Bool.and_eq_true, Bool.and_eq_true, Bool.not_eq_true'] at isSound
  refine ⟨?_, ?_, ?_, ?_⟩
  · exact ⟨fun genuine => genuine.congr rfl rfl, fun genuine => genuine.congr rfl rfl⟩
  · intro a held shared
    obtain ⟨last, common, behind⟩ := exists_lastCommonExec held shared
    exact Nat.le_trans behind (reaches last common)
  · rw [countP_records mostly.length] at quorum
    have := mostly.countP_le fun k => (s.recordOf k).consistentWith (s.recordOf primary)
    have : site.cluster.weakQuorum ≤ site.cluster.nodes.countP fun k =>
        correct k && (s.recordOf k).consistentWith (s.recordOf primary) := by
      simp only [Cluster.adoptQuorum, Cluster.weakQuorum] at *
      omega
    exact this
  · intro k inRange isCorrect consistent
    have genuine := mostly.genuine k inRange isCorrect
    refine ⟨fun a shown positive reached recent => ?_, fun same => ?_⟩
    · exact genuine.mem_line_of_consistentWith room numbered isSound.1.2 consistent shown positive
        reached recent
    · have equal := Record.state_eq_of_consistentWith consistent same.symm
      rw [same, ← equal]
      exact (genuine.upTo_lastExec room numbered).2.2

/-- Process 1 waits for process 0, which has executed one request more than the others. -/
def waitingTable (renewed : Record) : Agreement :=
  sampleTable
    [ renewed, { honestRecord 1 with viewChanged := true }, honestRecord 1, honestRecord 1,
      honestRecord 1, honestRecord 1 ]

/-- A follower that copies the record of a correct primary stays genuine. -/
theorem follower_copies_genuine_record :
    (((waitingTable (honestRecord 2)).changeView (sampleSite 1) (.id 0) 0).own
      (sampleSite 1)).Genuine 3 (sampleLine 10) := by
  have mostly : (waitingTable (honestRecord 2)).MostlyGenuine (sampleSite 1) (sampleLine 10)
      fun _ => true := by decide +kernel
  have another : 0 ≠ (sampleSite 1).me := by decide
  obtain ⟨stays, _⟩ := changeView_genuine_iff (.new 6 1) (by decide) mostly another
    (by decide +kernel) rfl (by decide +kernel)
  exact stays.mpr (by decide +kernel)

/-- A primary may hand over a request and a list that it made up: process 1 copies both. -/
theorem follower_copies_forged_record :
    let forged := waitingTable (sampleRecord [sampleRequest 1, inventedRequest 2] [99])
    (sampleSite 1).cluster.Configured ∧ Numbered (sampleLine 10) ∧
      5 * (sampleSite 1).cluster.faults < (sampleSite 1).cluster.size ∧
      forged.MostlyGenuine (sampleSite 1) (sampleLine 10) (fun k => k ≠ 0) ∧
      (∀ r ∈ forged.records, sanitizeRecord (sampleSite 1) r = r) ∧
      ((forged.own (sampleSite 1)).viewChanged = true ∧
        (forged.changeView (sampleSite 1) (.id 0) 0).own (sampleSite 1) =
          copyFrom (forged.recordOf 0) (forged.own (sampleSite 1))) ∧
      ¬((forged.changeView (sampleSite 1) (.id 0) 0).own (sampleSite 1)).Genuine
        (sampleSite 1).cluster.logCapacity (sampleLine 10) := by
  exact ⟨.new 6 1, by decide, by decide, by decide +kernel, by decide +kernel, by decide +kernel,
    by decide +kernel⟩

end QuorumList.Agreement
