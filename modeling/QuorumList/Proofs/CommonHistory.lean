import QuorumList.Proofs.Comparison

/-!
The common history.

`sharedBelow` sorts the sound records whose history a top record extends by their progress and takes
the `k`-th.  Its progress is therefore the largest that `k` of them have reached, which is what
`le_lastExec_iff_of_sharedBelow` says.  `adoptable` is the most advanced result over all tops, and
`findCommonHistory` copies its history unless the own one is as advanced and consistent with it.
-/
namespace QuorumList

/-! ### Counting in sorted lists -/

/-- In a list that falls, a value is reached at a place exactly when more entries reach it than
stand before that place. -/
theorem le_getElem_iff_lt_countP {α : Type} {f : α → Nat} {l : List α}
    (falling : l.Pairwise fun a b => f b ≤ f a) {i : Nat} (inList : i < l.length) (value : Nat) :
    value ≤ f l[i] ↔ i < l.countP fun a => value ≤ f a := by
  induction falling generalizing i with
  | nil => simp at inList
  | @cons a rest above _ ih =>
      by_cases reached : value ≤ f a
      · rw [List.countP_cons_of_pos (by simpa using reached)]
        cases i with
        | zero => simp [reached]
        | succ i =>
            rw [List.getElem_cons_succ, ih (by simpa using inList)]
            omega
      · have none : (a :: rest).countP (fun b => value ≤ f b) = 0 := by
          rw [List.countP_eq_zero]
          intro b member
          rcases List.mem_cons.mp member with rfl | inRest
          · simpa using reached
          · have := above b inRest
            simp only [decide_eq_true_eq]
            omega
        have small : f (a :: rest)[i] ≤ f a := by
          cases i with
          | zero => simp
          | succ i => exact above _ (List.getElem_mem _)
        rw [none]
        omega

/-- What two properties hold of beyond the length of a list, they hold of together. -/
theorem countP_add_countP_le {α : Type} (p q : α → Bool) (l : List α) :
    l.countP p + l.countP q ≤ (l.countP fun a => p a && q a) + l.length := by
  induction l with
  | nil => simp
  | cons a rest ih =>
      simp only [List.countP_cons, List.length_cons]
      cases p a <;> cases q a <;> simp <;> omega

/-- Leaving out those with another property loses no more than there are of these. -/
theorem countP_le_countP_not_add {α : Type} (p q : α → Bool) (l : List α) :
    l.countP p ≤ (l.countP fun a => p a && !q a) + l.countP q := by
  induction l with
  | nil => simp
  | cons a rest ih =>
      simp only [List.countP_cons]
      cases p a <;> cases q a <;> simp <;> omega

namespace Agreement

variable {site : Site} {s : Agreement}

/-- In a table with a record for each process, counting records is counting processes. -/
theorem countP_records (length : s.records.length = site.cluster.size) (p : Record → Bool) :
    s.records.countP p = site.cluster.nodes.countP fun k => p (s.recordOf k) := by
  have listed : site.cluster.nodes.map s.recordOf = s.records := by
    apply List.ext_getElem
    · simp [Cluster.nodes, length]
    · intro k _ inTable
      simp [recordOf, Cluster.nodes, inTable]
  calc s.records.countP p
      = (site.cluster.nodes.map s.recordOf).countP p := by rw [listed]
    _ = site.cluster.nodes.countP fun k => p (s.recordOf k) := List.countP_map

theorem sound_iff {r : Record} :
    sound site r = true ↔
      r.seqsBelow site.cluster.seqLimit = true ∧ r.logGaps = false ∧ r.double = false := by
  rw [sound, Bool.and_eq_true, Bool.and_eq_true, Bool.not_eq_true', Bool.not_eq_true', and_assoc]

@[simp] theorem mem_soundNodes {j : NodeId} :
    j ∈ s.soundNodes site ↔ j < site.cluster.size ∧ sound site (s.recordOf j) = true := by
  simp [soundNodes, Cluster.nodes]

/-! ### The most advanced history that `k` records share -/

/-- The processes with sound records whose history the record of `top` extends. -/
def beneath (site : Site) (s : Agreement) (top : NodeId) : List NodeId :=
  (s.soundNodes site).filter fun j => (s.recordOf j).precedes (s.recordOf top)

theorem mem_beneath {j top : NodeId} :
    j ∈ s.beneath site top ↔
      j ∈ s.soundNodes site ∧ (s.recordOf j).precedes (s.recordOf top) = true := by
  simp [beneath]

theorem countP_beneath_le (top : NodeId) (p : NodeId → Bool) :
    (s.beneath site top).countP p ≤ site.cluster.nodes.countP p :=
  List.Sublist.countP_le (List.filter_sublist.trans List.filter_sublist)

theorem sharedBelow_eq (k : Nat) (top : NodeId) :
    s.sharedBelow site k top = (s.byProgress (s.beneath site top))[k - 1]? := rfl

theorem byProgress_perm (nodes : List NodeId) : (s.byProgress nodes).Perm nodes :=
  List.mergeSort_perm _ _

theorem byProgress_falling (nodes : List NodeId) :
    (s.byProgress nodes).Pairwise fun i j => (s.recordOf j).lastExec ≤ (s.recordOf i).lastExec := by
  have sorted : (s.byProgress nodes).Pairwise fun i j =>
      decide ((s.recordOf j).lastExec ≤ (s.recordOf i).lastExec) = true :=
    List.pairwise_mergeSort
      (by intro a b c; simp only [decide_eq_true_eq]; omega)
      (by intro a b; simp only [Bool.or_eq_true, decide_eq_true_eq]; omega) nodes
  exact sorted.imp fun less => by simpa using less

/-- There is a shared history as soon as `k` records lie beneath the top. -/
theorem exists_sharedBelow {k : Nat} (positive : 0 < k) {top : NodeId}
    (enough : k ≤ (s.beneath site top).length) :
    ∃ holder, s.sharedBelow site k top = some holder := by
  have length := (byProgress_perm (s := s) (s.beneath site top)).length_eq
  have inList : k - 1 < (s.byProgress (s.beneath site top)).length := by omega
  exact ⟨_, List.getElem?_eq_getElem inList⟩

theorem mem_beneath_of_sharedBelow {k : Nat} {top holder : NodeId}
    (shared : s.sharedBelow site k top = some holder) : holder ∈ s.beneath site top := by
  rw [sharedBelow_eq] at shared
  exact (byProgress_perm _).mem_iff.mp (List.mem_of_getElem? shared)

/-- The holder has reached a number exactly when `k` of the records beneath the top have. -/
theorem le_lastExec_iff_of_sharedBelow {k : Nat} (positive : 0 < k) {top holder : NodeId}
    (shared : s.sharedBelow site k top = some holder) (number : Nat) :
    number ≤ (s.recordOf holder).lastExec ↔
      k ≤ (s.beneath site top).countP fun j => number ≤ (s.recordOf j).lastExec := by
  rw [sharedBelow_eq] at shared
  obtain ⟨inList, rfl⟩ := List.getElem?_eq_some_iff.mp shared
  rw [le_getElem_iff_lt_countP (f := fun j => (s.recordOf j).lastExec) (byProgress_falling _)
    inList, (byProgress_perm _).countP_eq]
  omega

/-! ### The adoptable history -/

theorem mem_commonHistories {k : Nat} (positive : 0 < k) {common : List Int × NodeId} :
    common ∈ s.commonHistories site k ↔
      common.1 = (s.recordOf common.2).state ∧
        ∃ top ∈ s.soundNodes site, s.sharedBelow site k top = some common.2 := by
  obtain ⟨state, holder⟩ := common
  rw [commonHistories, if_neg (by omega), List.mem_filterMap]
  constructor
  · rintro ⟨top, sound, found⟩
    obtain ⟨j, shared, pair⟩ := Option.map_eq_some_iff.mp found
    obtain ⟨rfl, rfl⟩ := Prod.mk.injEq .. ▸ pair
    exact ⟨rfl, top, sound, shared⟩
  · rintro ⟨same, top, sound, shared⟩
    refine ⟨top, sound, ?_⟩
    rw [shared, Option.map_some, ← same]

/-- The choice of the more advanced ends at one of the candidates, and none is more advanced. -/
theorem foldl_moreAdvanced (first : List Int × NodeId) (rest : List (List Int × NodeId)) :
    rest.foldl s.moreAdvanced first ∈ first :: rest ∧
      ∀ common ∈ first :: rest, (s.recordOf common.2).lastExec ≤
        (s.recordOf (rest.foldl s.moreAdvanced first).2).lastExec := by
  induction rest generalizing first with
  | nil => simp
  | cons candidate rest ih =>
      obtain ⟨member, largest⟩ := ih (s.moreAdvanced first candidate)
      have chosen : s.moreAdvanced first candidate = first ∨
          s.moreAdvanced first candidate = candidate := by
        unfold moreAdvanced
        split <;> simp
      have above : (s.recordOf first.2).lastExec ≤
            (s.recordOf (s.moreAdvanced first candidate).2).lastExec ∧
          (s.recordOf candidate.2).lastExec ≤
            (s.recordOf (s.moreAdvanced first candidate).2).lastExec := by
        unfold moreAdvanced
        split <;> constructor <;> omega
      have start := largest _ (List.mem_cons_self)
      refine ⟨?_, ?_⟩
      · rw [List.foldl_cons]
        cases List.mem_cons.mp member with
        | inl same =>
            rw [same]
            cases chosen with
            | inl isFirst => simp [isFirst]
            | inr isCandidate => simp [isCandidate]
        | inr inRest => simp [inRest]
      · intro common inList
        rw [List.foldl_cons]
        rcases List.mem_cons.mp inList with rfl | inList
        · omega
        · rcases List.mem_cons.mp inList with rfl | inRest
          · omega
          · exact largest common (List.mem_cons_of_mem _ inRest)

theorem adoptQuorum_pos (c : Cluster) : 0 < c.adoptQuorum := by
  simp [Cluster.adoptQuorum]

/-- Some history is adoptable as soon as an adopting quorum lies beneath one sound record. -/
theorem exists_adoptable {top : NodeId} (isSound : top ∈ s.soundNodes site)
    (enough : site.cluster.adoptQuorum ≤ (s.beneath site top).length) :
    ∃ common, s.adoptable site = some common := by
  obtain ⟨holder, shared⟩ := exists_sharedBelow (adoptQuorum_pos _) enough
  have member : ((s.recordOf holder).state, holder) ∈
      s.commonHistories site site.cluster.adoptQuorum :=
    (mem_commonHistories (adoptQuorum_pos _)).mpr ⟨rfl, top, isSound, shared⟩
  unfold adoptable
  split
  · next empty => simp [empty] at member
  · exact ⟨_, rfl⟩

/-- The adoptable history belongs to a record beneath some sound one, and no other candidate is more
advanced. -/
theorem of_adoptable {state : List Int} {holder : NodeId}
    (chosen : s.adoptable site = some (state, holder)) :
    state = (s.recordOf holder).state ∧
      (∃ top ∈ s.soundNodes site,
        s.sharedBelow site site.cluster.adoptQuorum top = some holder) ∧
      ∀ top ∈ s.soundNodes site, ∀ other,
        s.sharedBelow site site.cluster.adoptQuorum top = some other →
          (s.recordOf other).lastExec ≤ (s.recordOf holder).lastExec := by
  unfold adoptable at chosen
  split at chosen
  · simp at chosen
  · next first rest candidates =>
      obtain ⟨member, largest⟩ := foldl_moreAdvanced (s := s) first rest
      rw [Option.some.inj chosen] at member largest
      rw [← candidates] at member largest
      obtain ⟨same, shared⟩ := (mem_commonHistories (adoptQuorum_pos _)).mp member
      refine ⟨same, shared, fun top isSound other below => ?_⟩
      exact largest ((s.recordOf other).state, other)
        ((mem_commonHistories (adoptQuorum_pos _)).mpr ⟨rfl, top, isSound, below⟩)

end Agreement

end QuorumList
