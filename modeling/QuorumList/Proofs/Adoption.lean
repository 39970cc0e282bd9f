import Mathlib.Data.List.MinMax
import Mathlib.Data.List.Permutation
import QuorumList.Proofs.CommonHistory

/-!
Adopting the common history.

A table is mostly genuine when all but `F` of its records, the own one among them, are sound and
genuine for one line.  Over such a table a common history is always found, so the conflict flag is
never raised, and the own record reaches every number that an adopting quorum of genuine records has
reached.  What is adopted, though, is the word of a single holder: `precedes` looks at lists only at
equal progress and at logs only where both still hold an entry, so the holder may be one of the
other records.  `findCommonHistory_genuine_iff` says exactly when the own record stays genuine, and
`poisonedTable` is a table over which it does not.
-/
namespace QuorumList.Agreement

variable {site : Site} {s : Agreement}

/-! ### The effect on the own record -/

/-- The own history is kept: it is the holder's, or it is as advanced as the holder's and consistent
with it. -/
def keeps (site : Site) (s : Agreement) (holder : NodeId) : Bool :=
  holder = site.me ||
    ((s.recordOf holder).lastExec ≤ (s.own site).lastExec &&
      (s.own site).consistentWith (s.recordOf holder))

theorem lastExec_le_of_keeps {holder : NodeId} (kept : s.keeps site holder = true) :
    (s.recordOf holder).lastExec ≤ (s.own site).lastExec := by
  rw [keeps, Bool.or_eq_true, Bool.and_eq_true, decide_eq_true_eq, decide_eq_true_eq] at kept
  rcases kept with isMe | ⟨ahead, _⟩
  · rw [isMe]
    exact Nat.le_refl _
  · exact ahead

/-- A consistent history is left only for a more advanced one. -/
theorem lt_lastExec_of_not_keeps {holder : NodeId} (left : s.keeps site holder = false)
    (consistent : (s.own site).consistentWith (s.recordOf holder) = true) :
    (s.own site).lastExec < (s.recordOf holder).lastExec := by
  rw [keeps, Bool.or_eq_false_iff, consistent, Bool.and_true] at left
  exact Nat.lt_of_not_le (of_decide_eq_false left.2)

theorem own_findCommonHistory_of_keeps (inTable : site.me < s.records.length)
    {state : List Int} {holder : NodeId} (chosen : s.adoptable site = some (state, holder))
    (kept : s.keeps site holder = true) :
    (s.findCommonHistory site).own site = { s.own site with conflict := false } := by
  rw [findCommonHistory, chosen]
  simp only [own_updateOwn inTable]
  rw [keeps, Bool.or_eq_true, decide_eq_true_eq] at kept
  split
  · rfl
  · next notMe => exact if_pos (kept.resolve_left notMe)

theorem own_findCommonHistory_of_not_keeps (inTable : site.me < s.records.length)
    {state : List Int} {holder : NodeId} (chosen : s.adoptable site = some (state, holder))
    (left : s.keeps site holder = false) :
    (s.findCommonHistory site).own site =
      { s.own site with
        conflict := false
        state := state
        log := (s.recordOf holder).log
        replies := (s.recordOf holder).replies }.pruneExecuted := by
  rw [findCommonHistory, chosen]
  simp only [own_updateOwn inTable]
  rw [keeps, Bool.or_eq_false_iff, decide_eq_false_iff_not] at left
  rw [if_neg left.1]
  exact if_neg (Bool.eq_false_iff.mp left.2)

/-! ### Mostly genuine tables -/

/-- All but `F` records, the own one among them, are sound and genuine for one line. -/
structure MostlyGenuine (site : Site) (line : List AssignedRequest) (correct : NodeId → Bool)
    (s : Agreement) : Prop where
  length : s.records.length = site.cluster.size
  member : site.me < site.cluster.size
  own : correct site.me = true
  most : site.cluster.size ≤ site.cluster.nodes.countP correct + site.cluster.faults
  isSound : ∀ k < site.cluster.size, correct k = true → sound site (s.recordOf k) = true
  genuine : ∀ k < site.cluster.size, correct k = true →
    (s.recordOf k).Genuine site.cluster.logCapacity line

namespace MostlyGenuine

variable {line : List AssignedRequest} {correct : NodeId → Bool}

instance : Decidable (s.MostlyGenuine site line correct) :=
  decidable_of_iff
    (s.records.length = site.cluster.size ∧ site.me < site.cluster.size ∧ correct site.me = true ∧
      site.cluster.size ≤ site.cluster.nodes.countP correct + site.cluster.faults ∧
      (∀ k < site.cluster.size, correct k = true → sound site (s.recordOf k) = true) ∧
      ∀ k < site.cluster.size, correct k = true →
        (s.recordOf k).Genuine site.cluster.logCapacity line)
    ⟨fun ⟨length, member, own, most, isSound, genuine⟩ =>
        ⟨length, member, own, most, isSound, genuine⟩,
      fun ⟨length, member, own, most, isSound, genuine⟩ =>
        ⟨length, member, own, most, isSound, genuine⟩⟩

theorem inTable (mostly : s.MostlyGenuine site line correct) : site.me < s.records.length := by
  rw [mostly.length]
  exact mostly.member

/-- What is true of many processes is true of all but `F` as many correct ones. -/
theorem countP_le (mostly : s.MostlyGenuine site line correct) (p : NodeId → Bool) :
    site.cluster.nodes.countP p ≤
      (site.cluster.nodes.countP fun k => correct k && p k) + site.cluster.faults := by
  have both := countP_add_countP_le correct p site.cluster.nodes
  have size : site.cluster.nodes.length = site.cluster.size := List.length_range
  have most := mostly.most
  omega

theorem exists_top (mostly : s.MostlyGenuine site line correct) :
    ∃ top, top < site.cluster.size ∧ correct top = true ∧
      ∀ k < site.cluster.size, correct k = true →
        (s.recordOf k).lastExec ≤ (s.recordOf top).lastExec := by
  have mem : ∀ k, k ∈ site.cluster.nodes.filter correct ↔
      k < site.cluster.size ∧ correct k = true := by
    simp [Cluster.nodes]
  cases largest : (site.cluster.nodes.filter correct).argmax fun k => (s.recordOf k).lastExec with
  | none =>
      have empty := List.argmax_eq_none.mp largest
      have := (mem site.me).mpr ⟨mostly.member, mostly.own⟩
      simp [empty] at this
  | some top =>
      obtain ⟨inRange, isCorrect⟩ := (mem top).mp (List.argmax_mem largest)
      exact ⟨top, inRange, isCorrect, fun k below isCorrect =>
        List.le_of_mem_argmax (f := fun k => (s.recordOf k).lastExec)
          ((mem k).mpr ⟨below, isCorrect⟩) largest⟩

/-- Beneath the most advanced genuine record lie all genuine records. -/
theorem countP_correct_le_beneath (mostly : s.MostlyGenuine site line correct)
    (room : 0 < site.cluster.logCapacity) (numbered : Numbered line) {top : NodeId}
    (inRange : top < site.cluster.size) (isCorrect : correct top = true)
    (largest : ∀ k < site.cluster.size, correct k = true →
      (s.recordOf k).lastExec ≤ (s.recordOf top).lastExec) (p : NodeId → Bool) :
    (site.cluster.nodes.countP fun k => correct k && p k) ≤ (s.beneath site top).countP p := by
  rw [beneath, soundNodes, List.countP_filter, List.countP_filter]
  apply List.countP_mono_left
  intro k member holds
  have below : k < site.cluster.size := by simpa [Cluster.nodes] using member
  rw [Bool.and_eq_true] at holds
  have precedes := (mostly.genuine k below holds.1).precedes room numbered
    (mostly.genuine top inRange isCorrect) (largest k below holds.1)
  simp [holds.2, precedes, mostly.isSound k below holds.1]

/-- A common history is found, it is as advanced as any that an adopting quorum of genuine records
has reached, and it is no more advanced than `2F + 1` genuine records. -/
theorem exists_adoptable (mostly : s.MostlyGenuine site line correct)
    (room : 0 < site.cluster.logCapacity) (numbered : Numbered line)
    (enough : site.cluster.adoptQuorum ≤ site.cluster.nodes.countP correct) :
    ∃ state holder, s.adoptable site = some (state, holder) ∧
      state = (s.recordOf holder).state ∧
      (∀ number, site.cluster.adoptQuorum ≤
          (site.cluster.nodes.countP fun k => correct k && number ≤ (s.recordOf k).lastExec) →
        number ≤ (s.recordOf holder).lastExec) ∧
      site.cluster.weakQuorum ≤ site.cluster.nodes.countP fun k =>
        correct k && (s.recordOf holder).lastExec ≤ (s.recordOf k).lastExec := by
  obtain ⟨top, inRange, isCorrect, largest⟩ := mostly.exists_top
  have genuineBelow := mostly.countP_correct_le_beneath room numbered inRange isCorrect largest
  have topSound : top ∈ s.soundNodes site :=
    mem_soundNodes.mpr ⟨inRange, mostly.isSound top inRange isCorrect⟩
  have quorum : site.cluster.adoptQuorum ≤ (s.beneath site top).length := by
    have all : site.cluster.nodes.countP correct ≤ (s.beneath site top).length := by
      simpa using genuineBelow fun _ => true
    exact Nat.le_trans enough all
  obtain ⟨⟨state, holder⟩, chosen⟩ := Agreement.exists_adoptable topSound quorum
  obtain ⟨same, ⟨above, _, held⟩, most⟩ := of_adoptable chosen
  refine ⟨state, holder, chosen, same, ?_, ?_⟩
  · intro number reached
    obtain ⟨other, below⟩ := exists_sharedBelow (adoptQuorum_pos _) quorum
    have := (le_lastExec_iff_of_sharedBelow (adoptQuorum_pos _) below number).mpr
      (Nat.le_trans reached (genuineBelow _))
    exact Nat.le_trans this (most top topSound other below)
  · have shared := (le_lastExec_iff_of_sharedBelow (adoptQuorum_pos _) held _).mp (Nat.le_refl _)
    have part : (s.beneath site above).countP
          (fun j => (s.recordOf holder).lastExec ≤ (s.recordOf j).lastExec) ≤ _ :=
      countP_beneath_le above _
    have := mostly.countP_le fun j => (s.recordOf holder).lastExec ≤ (s.recordOf j).lastExec
    simp only [Cluster.adoptQuorum, Cluster.weakQuorum] at *
    omega

end MostlyGenuine

/-! ### When the own record stays genuine -/

/-- Over a mostly genuine table the conflict flag is never raised, and the own record reaches every
number that an adopting quorum of genuine records has reached.  It stays genuine exactly when it is
kept or the chosen holder is genuine; what it adopts is no more advanced than `2F + 1` genuine
records. -/
theorem findCommonHistory_genuine_iff {line : List AssignedRequest} {correct : NodeId → Bool}
    (configured : site.cluster.Configured) (numbered : Numbered line)
    (bound : 5 * site.cluster.faults < site.cluster.size)
    (mostly : s.MostlyGenuine site line correct) :
    ((s.findCommonHistory site).own site).conflict = false ∧
      ∃ state holder, s.adoptable site = some (state, holder) ∧
        (((s.findCommonHistory site).own site).Genuine site.cluster.logCapacity line ↔
          s.keeps site holder = true ∨
            (s.recordOf holder).Genuine site.cluster.logCapacity line) ∧
        (∀ number, site.cluster.adoptQuorum ≤
            (site.cluster.nodes.countP fun k => correct k && number ≤ (s.recordOf k).lastExec) →
          number ≤ ((s.findCommonHistory site).own site).lastExec) ∧
        (s.keeps site holder = true ∨ site.cluster.weakQuorum ≤ site.cluster.nodes.countP fun k =>
          correct k &&
            ((s.findCommonHistory site).own site).lastExec ≤ (s.recordOf k).lastExec) := by
  have room := configured.logCapacity_pos
  have inTable := mostly.inTable
  have ownGenuine : (s.own site).Genuine site.cluster.logCapacity line :=
    mostly.genuine site.me mostly.member mostly.own
  have enough : site.cluster.adoptQuorum ≤ site.cluster.nodes.countP correct := by
    have most := mostly.most
    simp only [Cluster.adoptQuorum]
    omega
  obtain ⟨state, holder, chosen, same, reached, witnessed⟩ :=
    mostly.exists_adoptable room numbered enough
  cases kept : s.keeps site holder with
  | true =>
      rw [own_findCommonHistory_of_keeps inTable chosen kept]
      refine ⟨rfl, state, holder, chosen, ?_, ?_, .inl kept⟩
      · exact iff_of_true (ownGenuine.congr rfl rfl) (.inl kept)
      · intro number quorum
        exact Nat.le_trans (reached number quorum) (lastExec_le_of_keeps kept)
  | false =>
      rw [own_findCommonHistory_of_not_keeps inTable chosen kept]
      refine ⟨rfl, state, holder, chosen, ?_, reached, .inr witnessed⟩
      simp only [kept, Bool.false_eq_true, false_or]
      exact ⟨fun genuine => genuine.congr rfl same.symm, fun genuine => genuine.congr rfl same⟩

/-- When everybody is genuine, adopting the common history takes a replica to the last number that
it has executed itself, or that an adopting quorum has. -/
theorem le_lastExec_findCommonHistory_iff {line : List AssignedRequest}
    (configured : site.cluster.Configured) (numbered : Numbered line)
    (enough : site.cluster.adoptQuorum ≤ site.cluster.size)
    (everybody : s.MostlyGenuine site line fun _ => true) (number : Nat) :
    number ≤ ((s.findCommonHistory site).own site).lastExec ↔
      number ≤ (s.own site).lastExec ∨ site.cluster.adoptQuorum ≤
        site.cluster.nodes.countP fun k => number ≤ (s.recordOf k).lastExec := by
  have room := configured.logCapacity_pos
  have inTable := everybody.inTable
  obtain ⟨state, holder, chosen, _, reached, _⟩ :=
    everybody.exists_adoptable room numbered (by simpa [Cluster.nodes] using enough)
  obtain ⟨_, ⟨above, _, held⟩, _⟩ := of_adoptable chosen
  have ofHolder : number ≤ (s.recordOf holder).lastExec ↔ site.cluster.adoptQuorum ≤
      site.cluster.nodes.countP fun k => number ≤ (s.recordOf k).lastExec := by
    constructor
    · intro executed
      have shared := (le_lastExec_iff_of_sharedBelow (adoptQuorum_pos _) held _).mp executed
      exact Nat.le_trans shared (countP_beneath_le above _)
    · intro quorum
      exact reached number (by simpa using quorum)
  rw [← ofHolder]
  cases kept : s.keeps site holder with
  | true =>
      rw [own_findCommonHistory_of_keeps inTable chosen kept]
      have behind := lastExec_le_of_keeps kept
      exact ⟨.inl, fun either => either.elim id fun ofOther => Nat.le_trans ofOther behind⟩
  | false =>
      rw [own_findCommonHistory_of_not_keeps inTable chosen kept]
      have inRange := (mem_soundNodes.mp
        (mem_beneath.mp (mem_beneath_of_sharedBelow held)).1).1
      have consistent := (everybody.genuine site.me everybody.member rfl).consistentWith room
        numbered (everybody.genuine holder inRange rfl)
      have ahead := Nat.le_of_lt (lt_lastExec_of_not_keeps kept consistent)
      exact ⟨.inr, fun either => either.elim (fun ofOwn => Nat.le_trans ofOwn ahead) id⟩

/-! ### Sample tables -/

/-- The sample line appends each number at its own place. -/
def sampleRequest (seq : Nat) : AssignedRequest :=
  { request := { client := 0, timestamp := seq, operation := .append seq }
    view := .id 0
    seq := seq }

def sampleLine (length : Nat) : List AssignedRequest :=
  (List.range' 1 length).map sampleRequest

/-- A request that stands nowhere on the sample line. -/
def inventedRequest (seq : Nat) : AssignedRequest :=
  { sampleRequest seq with request := { client := 0, timestamp := 90, operation := .pop 0 } }

/-- A record in view 0 with a log that six processes vouch for, and a list. -/
def sampleRecord (log : List AssignedRequest) (state : List Int) : Record :=
  { Record.new 1 with
    state := state
    log := log.map fun a => { request := a, executedBy := .ofList (List.range 6) }
    seq := Record.largestSeq log
    view := .id 0 }

/-- The record of a replica that has executed the sample line and logs three requests of it. -/
def honestRecord (length : Nat) : Record :=
  sampleRecord (Record.lastEntries 3 (sampleLine length)) (stateAfter (sampleLine length))

/-- A process of six, one of which may misbehave. -/
def sampleSite (me : NodeId) : Site :=
  { me := me, cluster := .new 6 1, switches := .none }

def sampleTable (records : List Record) : Agreement :=
  { records := records, flush := false, needFlush := false }

/-- Process 0 has fallen behind, and process 5 makes up a list. -/
def laggingTable : Agreement :=
  sampleTable
    [ honestRecord 2, honestRecord 5, honestRecord 5, honestRecord 5, honestRecord 10,
      sampleRecord [sampleRequest 5] [99] ]

/-- Process 0 has fallen behind, and process 5 makes up a log and a list.  The log of process 1 has
moved on so far that it shows none of the numbers that process 5 makes up. -/
def poisonedTable : Agreement :=
  sampleTable
    [ honestRecord 2, honestRecord 10, honestRecord 5, honestRecord 5, honestRecord 2,
      sampleRecord [inventedRequest 4, inventedRequest 5] [99] ]

theorem laggingTable_mostlyGenuine :
    laggingTable.MostlyGenuine (sampleSite 0) (sampleLine 10) fun k => k < 5 := by
  decide +kernel

/-- The replica that has fallen behind adopts a genuine history. -/
theorem lagging_replica_catches_up :
    ((laggingTable.findCommonHistory (sampleSite 0)).own (sampleSite 0)).Genuine 3
      (sampleLine 10) := by
  obtain ⟨_, state, holder, chosen, stays, _⟩ :=
    findCommonHistory_genuine_iff (.new 6 1) (by decide) (by decide) laggingTable_mostlyGenuine
  have holds : laggingTable.adoptable (sampleSite 0) = some ([1, 2, 3, 4, 5], 3) := by cbv
  rw [chosen] at holds
  obtain ⟨rfl, rfl⟩ := Prod.mk.inj (Option.some.inj holds)
  exact stays.mpr (.inr (by decide +kernel))

/-- One false record is enough: process 0 adopts the log and the list that process 5 made up. -/
theorem poisoned_replica_leaves_line :
    (sampleSite 0).cluster.Configured ∧ Numbered (sampleLine 10) ∧
      5 * (sampleSite 0).cluster.faults < (sampleSite 0).cluster.size ∧
      poisonedTable.MostlyGenuine (sampleSite 0) (sampleLine 10) (fun k => k < 5) ∧
      (∀ r ∈ poisonedTable.records, sanitizeRecord (sampleSite 0) r = r) ∧
      ¬((poisonedTable.findCommonHistory (sampleSite 0)).own (sampleSite 0)).Genuine
        (sampleSite 0).cluster.logCapacity (sampleLine 10) := by
  refine ⟨.new 6 1, by decide, by decide, by decide +kernel, by decide +kernel, ?_⟩
  have chosen : poisonedTable.adoptable (sampleSite 0) = some ([99], 5) := by cbv
  rw [own_findCommonHistory_of_not_keeps (by decide) chosen (by decide +kernel)]
  decide +kernel

end QuorumList.Agreement
