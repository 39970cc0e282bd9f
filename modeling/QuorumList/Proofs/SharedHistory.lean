import QuorumList.Proofs.Adoption

/-!
Who shares the common history.

The holder of a common history is the `k`-th most advanced of the records beneath some top, so `k`
records beneath that top have got as far.  They need not extend it.  Comparing is not transitive:
two records may lie beneath one top and contradict each other, at a number that the log of the top
no longer holds, or by their lists, which are compared at equal progress only.  So at least `k`
sound records extend the holder's history exactly when the records that contradict it are made up
for, and `misledTable` is a table in which they are not.
-/
namespace QuorumList

namespace Record

variable {r other top : Record}

theorem precedes_iff (distinct : other.logged.Pairwise fun a b => a.seq < b.seq) :
    r.precedes other = true ↔
      r.lastExec ≤ other.lastExec ∧
        (∀ a ∈ r.logged, ∀ b ∈ other.logged, a.seq = b.seq → a = b) ∧
        (r.lastExec = other.lastExec → r.state = other.state) := by
  rw [precedes, Bool.and_eq_true, Bool.and_eq_true, Bool.or_eq_true, decide_eq_true_eq,
    decide_eq_true_eq, decide_eq_true_eq, agreesWith_iff distinct, and_assoc]
  constructor
  · rintro ⟨behind, agree, less | same⟩
    · exact ⟨behind, agree, fun equal => absurd equal (Nat.ne_of_lt less)⟩
    · exact ⟨behind, agree, fun _ => same⟩
  · rintro ⟨behind, agree, lists⟩
    exact ⟨behind, agree, (Nat.lt_or_eq_of_le behind).imp_right lists⟩

/-- Two records beneath one top contradict each other only where the top cannot tell: at a number
that its log no longer holds, or by their lists at an earlier progress than its own. -/
theorem not_precedes_iff_of_precedes (beneath : r.precedes top = true)
    (otherBeneath : other.precedes top = true) (reached : r.lastExec ≤ other.lastExec)
    (distinct : other.logged.Pairwise fun a b => a.seq < b.seq)
    (distinctTop : top.logged.Pairwise fun a b => a.seq < b.seq) :
    ¬ r.precedes other = true ↔
      (∃ a ∈ r.logged, ∃ b ∈ other.logged, a.seq = b.seq ∧ a ≠ b ∧
        ∀ c ∈ top.logged, c.seq ≠ a.seq) ∨
      r.lastExec = other.lastExec ∧ other.lastExec < top.lastExec ∧ r.state ≠ other.state := by
  obtain ⟨-, agree, lists⟩ := (precedes_iff distinctTop).mp beneath
  obtain ⟨otherBehind, otherAgree, otherLists⟩ := (precedes_iff distinctTop).mp otherBeneath
  rw [precedes_iff distinct]
  constructor
  · intro contradicts
    by_cases logs : ∀ a ∈ r.logged, ∀ b ∈ other.logged, a.seq = b.seq → a = b
    · right
      have differ : ¬ (r.lastExec = other.lastExec → r.state = other.state) :=
        fun same => contradicts ⟨reached, logs, same⟩
      obtain ⟨equal, different⟩ := Classical.not_imp.mp differ
      refine ⟨equal, Nat.lt_of_le_of_ne otherBehind fun level => different ?_, different⟩
      rw [lists (equal.trans level), otherLists level]
    · left
      push Not at logs
      obtain ⟨a, held, b, otherHeld, number, different⟩ := logs
      refine ⟨a, held, b, otherHeld, number, different, fun c topHeld same => different ?_⟩
      rw [agree a held c topHeld same.symm,
        otherAgree b otherHeld c topHeld (number.symm.trans same.symm)]
  · rintro (⟨a, held, b, otherHeld, number, different, -⟩ | ⟨equal, -, different⟩)
    · rintro ⟨-, agrees, -⟩
      exact different (agrees a held b otherHeld number)
    · rintro ⟨-, -, same⟩
      exact different (same equal)

end Record

namespace Agreement

variable {site : Site} {s : Agreement} {k : Nat} {holder top r : NodeId}

/-! ### Counting records -/

/-- How many sound records extend the history of `holder`. -/
def extending (site : Site) (s : Agreement) (holder : NodeId) : Nat :=
  (s.soundNodes site).countP fun r => (s.recordOf holder).precedes (s.recordOf r)

/-- How many sound records extend the history of `holder` without lying beneath the top. -/
def extendingElsewhere (site : Site) (s : Agreement) (top holder : NodeId) : Nat :=
  (s.soundNodes site).countP fun r =>
    (s.recordOf holder).precedes (s.recordOf r) && !(s.recordOf r).precedes (s.recordOf top)

/-- How many records beneath the top have got as far as that of `holder`. -/
def reaching (site : Site) (s : Agreement) (top holder : NodeId) : Nat :=
  (s.beneath site top).countP fun r => (s.recordOf holder).lastExec ≤ (s.recordOf r).lastExec

/-- The record of `r` has got as far as that of `holder` and does not extend its history. -/
def contradicts (s : Agreement) (holder r : NodeId) : Bool :=
  (s.recordOf holder).lastExec ≤ (s.recordOf r).lastExec &&
    !(s.recordOf holder).precedes (s.recordOf r)

/-- How many records beneath the top contradict that of `holder`. -/
def contradicting (site : Site) (s : Agreement) (top holder : NodeId) : Nat :=
  (s.beneath site top).countP (s.contradicts holder)

/-- What has got as far beneath the top either extends the history or contradicts it. -/
theorem extending_add_contradicting (site : Site) (s : Agreement) (top holder : NodeId) :
    s.extending site holder + s.contradicting site top holder =
      s.reaching site top holder + s.extendingElsewhere site top holder := by
  have places : s.extending site holder =
      ((s.beneath site top).countP fun r => (s.recordOf holder).precedes (s.recordOf r)) +
        s.extendingElsewhere site top holder := by
    rw [extending, List.countP_eq_countP_filter_add _ _
      fun r => (s.recordOf r).precedes (s.recordOf top), List.countP_filter (l := s.soundNodes site)
        (q := fun r => !(s.recordOf r).precedes (s.recordOf top))]
    rfl
  have stances : s.reaching site top holder =
      ((s.beneath site top).countP fun r => (s.recordOf holder).precedes (s.recordOf r)) +
        s.contradicting site top holder := by
    rw [reaching, List.countP_eq_countP_filter_add _ _
      fun r => (s.recordOf holder).precedes (s.recordOf r), List.countP_filter, List.countP_filter]
    congr 1
    apply List.countP_congr
    intro r _
    simp only [Record.precedes, Bool.and_eq_true, decide_eq_true_eq]
    exact ⟨fun both => both.2, fun further => ⟨further.1.1, further⟩⟩
  omega

theorem pairwise_seq_of_mem_soundNodes (isSound : r ∈ s.soundNodes site) :
    (s.recordOf r).logged.Pairwise fun a b => a.seq < b.seq :=
  Record.pairwise_seq_of_logGaps (sound_iff.mp (mem_soundNodes.mp isSound).2).2.1

/-- A record beneath the top contradicts another one where the top cannot tell. -/
theorem contradicts_iff (isSound : top ∈ s.soundNodes site) (held : holder ∈ s.beneath site top)
    (other : r ∈ s.beneath site top) :
    s.contradicts holder r = true ↔
      (s.recordOf holder).lastExec ≤ (s.recordOf r).lastExec ∧
        ((∃ a ∈ (s.recordOf holder).logged, ∃ b ∈ (s.recordOf r).logged, a.seq = b.seq ∧ a ≠ b ∧
            ∀ c ∈ (s.recordOf top).logged, c.seq ≠ a.seq) ∨
          (s.recordOf holder).lastExec = (s.recordOf r).lastExec ∧
            (s.recordOf r).lastExec < (s.recordOf top).lastExec ∧
            (s.recordOf holder).state ≠ (s.recordOf r).state) := by
  obtain ⟨-, below⟩ := mem_beneath.mp held
  obtain ⟨otherSound, otherBelow⟩ := mem_beneath.mp other
  rw [contradicts, Bool.and_eq_true, decide_eq_true_eq, Bool.not_eq_true', ← Bool.not_eq_true]
  apply and_congr_right
  intro reached
  exact Record.not_precedes_iff_of_precedes below otherBelow reached
    (pairwise_seq_of_mem_soundNodes otherSound) (pairwise_seq_of_mem_soundNodes isSound)

/-- The holder of a common history lies beneath some top, and as many as asked for have got as far
there. -/
theorem of_mem_commonHistories (positive : 1 ≤ k) {state : List Int}
    (common : (state, holder) ∈ s.commonHistories site k) :
    state = (s.recordOf holder).state ∧ ∃ top ∈ s.soundNodes site,
      holder ∈ s.beneath site top ∧ k ≤ s.reaching site top holder := by
  obtain ⟨same, top, isSound, shared⟩ := (mem_commonHistories positive).mp common
  exact ⟨same, top, isSound, mem_beneath_of_sharedBelow shared,
    (le_lastExec_iff_of_sharedBelow positive shared _).mp (Nat.le_refl _)⟩

/-- No sound log has dropped a number that another one still holds, and sound records of equal
progress show the same list. -/
structure Coherent (site : Site) (s : Agreement) : Prop where
  complete : ∀ r ∈ s.soundNodes site, ∀ q ∈ s.soundNodes site, ∀ a ∈ (s.recordOf q).logged,
    a.seq ≤ (s.recordOf r).lastExec → ∃ c ∈ (s.recordOf r).logged, c.seq = a.seq
  level : ∀ r ∈ s.soundNodes site, ∀ q ∈ s.soundNodes site,
    (s.recordOf r).lastExec = (s.recordOf q).lastExec →
      (s.recordOf r).state = (s.recordOf q).state

/-- In a coherent table nothing beneath a top contradicts a history. -/
theorem Coherent.le_extending (coherent : s.Coherent site) (positive : 1 ≤ k) {state : List Int}
    (common : (state, holder) ∈ s.commonHistories site k) : k ≤ s.extending site holder := by
  obtain ⟨-, top, isSound, held, reached⟩ := of_mem_commonHistories positive common
  obtain ⟨holderSound, below⟩ := mem_beneath.mp held
  have behind := ((Record.precedes_iff (pairwise_seq_of_mem_soundNodes isSound)).mp below).1
  have nobody : s.contradicting site top holder = 0 := by
    rw [contradicting, List.countP_eq_zero]
    intro r other contradicts
    obtain ⟨-, ⟨a, inLog, -, -, -, -, unknown⟩ | ⟨equal, -, different⟩⟩ :=
      (contradicts_iff isSound held other).mp contradicts
    · have early : a.seq ≤ (s.recordOf top).lastExec :=
        Nat.le_trans (Record.seq_le_largestSeq inLog) behind
      obtain ⟨c, topHolds, same⟩ := coherent.complete top isSound holder holderSound a inLog early
      exact unknown c topHolds same
    · exact different (coherent.level holder holderSound r (mem_beneath.mp other).1 equal)
  have balance := extending_add_contradicting site s top holder
  omega

theorem mem_commonHistories_of_adoptable {common : List Int × NodeId}
    (chosen : s.adoptable site = some common) :
    common ∈ s.commonHistories site site.cluster.adoptQuorum := by
  obtain ⟨same, top, -⟩ := of_adoptable chosen
  exact (mem_commonHistories (adoptQuorum_pos _)).mpr ⟨same, top⟩

/-- How widely a common history is shared.  Its holder is sound and shows the list, and beneath some
top `k` records have got as far.  In a coherent table `k` sound records extend the history.  In any
table they do exactly when those that contradict it beneath the top are made up for by others that
have got as far or extend it; and a record contradicts it at a number that the log of the top no
longer holds, or by another list at an equal progress short of the top's.  The adoptable history is
one of these. -/
theorem shared_iff_made_up (site : Site) (s : Agreement) :
    (∀ common, s.adoptable site = some common →
      common ∈ s.commonHistories site site.cluster.adoptQuorum) ∧
    ∀ k, 1 ≤ k → ∀ state holder, (state, holder) ∈ s.commonHistories site k →
      holder ∈ s.soundNodes site ∧ state = (s.recordOf holder).state ∧
      (s.Coherent site → k ≤ s.extending site holder) ∧
      ∃ top ∈ s.soundNodes site, holder ∈ s.beneath site top ∧
        k ≤ s.reaching site top holder ∧
        (k ≤ s.extending site holder ↔
          k + s.contradicting site top holder ≤
            s.reaching site top holder + s.extendingElsewhere site top holder) ∧
        ∀ r ∈ s.beneath site top, (s.contradicts holder r = true ↔
          (s.recordOf holder).lastExec ≤ (s.recordOf r).lastExec ∧
            ((∃ a ∈ (s.recordOf holder).logged, ∃ b ∈ (s.recordOf r).logged,
                a.seq = b.seq ∧ a ≠ b ∧ ∀ c ∈ (s.recordOf top).logged, c.seq ≠ a.seq) ∨
              (s.recordOf holder).lastExec = (s.recordOf r).lastExec ∧
                (s.recordOf r).lastExec < (s.recordOf top).lastExec ∧
                (s.recordOf holder).state ≠ (s.recordOf r).state)) := by
  refine ⟨fun _ => mem_commonHistories_of_adoptable, fun k positive state holder common => ?_⟩
  obtain ⟨same, top, isSound, held, reached⟩ := of_mem_commonHistories positive common
  have balance := extending_add_contradicting site s top holder
  refine ⟨(mem_beneath.mp held).1, same, fun coherent => coherent.le_extending positive common,
    top, isSound, held, reached, ?_, fun r other => contradicts_iff isSound held other⟩
  constructor <;> intro enough <;> omega

/-- All records are honest, and some have got further than others. -/
def spreadTable : Agreement :=
  sampleTable
    [ honestRecord 0, honestRecord 2, honestRecord 1, honestRecord 2, honestRecord 1,
      honestRecord 1 ]

/-- One record contradicts the history that the lagging replica adopts, and is made up for; and
among honest records none contradicts it. -/
theorem lagging_history_shared :
    ([1, 2, 3, 4, 5], 3) ∈ laggingTable.commonHistories (sampleSite 0) 4 ∧
      4 ≤ laggingTable.extending (sampleSite 0) 3 ∧
      spreadTable.Coherent (sampleSite 0) ∧
      ([1], 4) ∈ spreadTable.commonHistories (sampleSite 0) 4 ∧
      4 ≤ spreadTable.extending (sampleSite 0) 4 := by
  have chosen : laggingTable.adoptable (sampleSite 0) = some ([1, 2, 3, 4, 5], 3) := by cbv
  obtain ⟨adopted, shared⟩ := shared_iff_made_up (sampleSite 0) laggingTable
  have common := adopted _ chosen
  obtain ⟨-, -, -, top, isSound, held, -, extended, -⟩ := shared 4 (by decide) _ _ common
  have madeUp : ∀ top ∈ laggingTable.soundNodes (sampleSite 0),
      3 ∈ laggingTable.beneath (sampleSite 0) top →
        4 + laggingTable.contradicting (sampleSite 0) top 3 ≤
          laggingTable.reaching (sampleSite 0) top 3 +
            laggingTable.extendingElsewhere (sampleSite 0) top 3 := by decide +kernel
  have chosenSpread : spreadTable.adoptable (sampleSite 0) = some ([1], 4) := by cbv
  have coherent : spreadTable.Coherent (sampleSite 0) := ⟨by decide +kernel, by decide +kernel⟩
  obtain ⟨adoptedSpread, sharedSpread⟩ := shared_iff_made_up (sampleSite 0) spreadTable
  have commonSpread := adoptedSpread _ chosenSpread
  obtain ⟨-, -, undisputed, -⟩ := sharedSpread 4 (by decide) _ _ commonSpread
  exact ⟨common, extended.mpr (madeUp top isSound held), coherent, commonSpread,
    undisputed coherent⟩

/-- Processes 0 and 2 have executed one request and process 1 a second one.  Process 3 shows the log
of the first two with a list of its own, and the others have executed nothing. -/
def misledTable : Agreement :=
  sampleTable
    [ honestRecord 1, honestRecord 2, honestRecord 1, sampleRecord [sampleRequest 1] [99],
      honestRecord 0, honestRecord 0 ]

/-- The list that process 3 made up counts as common to four sound records, but only two extend it;
and process 0 adopts it. -/
theorem made_up_list_adopted :
    ([99], 3) ∈ misledTable.commonHistories (sampleSite 0) (sampleSite 0).cluster.adoptQuorum ∧
      misledTable.extending (sampleSite 0) 3 < (sampleSite 0).cluster.adoptQuorum ∧
      ((misledTable.findCommonHistory (sampleSite 0)).own (sampleSite 0)).state = [99] := by
  have chosen : misledTable.adoptable (sampleSite 0) = some ([99], 3) := by cbv
  refine ⟨mem_commonHistories_of_adoptable chosen, by decide +kernel, ?_⟩
  rw [own_findCommonHistory_of_not_keeps (by decide) chosen (by decide +kernel)]
  rfl

end Agreement

end QuorumList
