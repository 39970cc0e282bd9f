import QuorumList.Proofs.Votes

/-!
Quorums of votes.

A replica commits a request once an adopting quorum, `3F + 1` processes, shows it as prepared.  The
size of this quorum does not grow with the cluster.  Two of them have more than `F` processes in
common, and so a correct one, exactly when the cluster has at most `5F + 1` processes; in a larger
cluster `F` processes that show different requests to different observers get two requests
committed at one place, although no correct replica votes twice.
-/
namespace QuorumList.Agreement

/-! ### Electorates -/

/-- The correct processes of a cluster, and the records that each process ever shows to anybody.
All but `F` processes are correct, and a correct one votes for one client request at each place. -/
structure Electorate (c : Cluster) where
  correct : NodeId → Bool
  reports : NodeId → Record → Prop
  most : c.size ≤ c.nodes.countP correct + c.faults
  once : ∀ k, correct k = true → ∀ r r', reports k r → reports k r' → ∀ a b,
    r.carries a .prep = true → r'.carries b .prep = true →
    a.view = b.view → a.seq = b.seq → a.request = b.request

/-- The table shows a reported record of each correct process. -/
def Electorate.Observes {c : Cluster} (e : Electorate c) (s : Agreement) : Prop :=
  ∀ k < c.size, e.correct k = true → e.reports k (s.recordOf k)

variable {c : Cluster} {s t : Agreement} {a b : AssignedRequest}

theorem mem_knownWith {site : Site} {status : Status} :
    a ∈ s.knownWith site status ↔ a ∈ (s.own site).queued ∧
      site.cluster.adoptQuorum ≤
        site.cluster.nodes.countP fun k => (s.recordOf k).carries a status := by
  rw [knownWith, List.mem_filter, decide_eq_true_eq, supporters, NodeSet.card_filterBelow]
  rfl

/-- In a cluster of at most `5F + 1` processes two quorums have a correct process in common. -/
theorem Electorate.exists_common (e : Electorate c) (few : c.size ≤ 5 * c.faults + 1)
    {p q : NodeId → Bool} (quorumP : c.adoptQuorum ≤ c.nodes.countP p)
    (quorumQ : c.adoptQuorum ≤ c.nodes.countP q) :
    ∃ k < c.size, e.correct k = true ∧ p k = true ∧ q k = true := by
  have most := e.most
  have size : c.nodes.length = c.size := List.length_range
  have both := countP_add_countP_le p q c.nodes
  have correctToo := countP_add_countP_le (fun k => p k && q k) e.correct c.nodes
  have some : 0 < c.nodes.countP fun k => (p k && q k) && e.correct k := by
    simp only [Cluster.adoptQuorum] at quorumP quorumQ
    omega
  obtain ⟨k, inCluster, common⟩ := List.countP_pos_iff.mp some
  simp only [Bool.and_eq_true] at common
  exact ⟨k, List.mem_range.mp inCluster, common.2, common.1.1, common.1.2⟩

/-! ### Too large clusters -/

/-- A record that votes for one request carries no other one. -/
theorem eq_of_carries_votingRecord {status : Status}
    (carries : (votingRecord .prepared [a]).carries b status = true) : b = a := by
  by_contra other
  simp [votingRecord, Record.carries, Record.entryOf?, Ne.symm other] at carries

theorem carries_votingRecord (a : AssignedRequest) :
    (votingRecord .prepared [a]).carries a .prep = true := by
  simp [votingRecord, Record.carries, Record.entryOf?, StatusSet.prepared, StatusSet.has]

/-- What the processes of a split cluster show: the first ones vote for one request, the next ones
for another one at the same place. -/
def ballot (c : Cluster) (first k : Nat) : Record :=
  if k < first then votingRecord .prepared [placedRequest 1 1]
  else if k < 5 * c.faults + 2 then votingRecord .prepared [placedRequest 1 2]
  else Record.new c.clients

def ballots (c : Cluster) (first : Nat) : Agreement :=
  { records := c.nodes.map (ballot c first), flush := false, needFlush := false }

theorem recordOf_ballots {first k : Nat} (inCluster : k < c.size) :
    (ballots c first).recordOf k = ballot c first k := by
  simp [recordOf, ballots, Cluster.nodes, inCluster]

/-- A cluster with more than `5F + 1` processes falls into two groups of `2F + 1`, the `F` processes
between them, and the rest. -/
theorem countP_nodes (large : 5 * c.faults + 2 ≤ c.size) (p : NodeId → Bool) :
    c.nodes.countP p =
      (List.range' 0 (2 * c.faults + 1)).countP p +
        (List.range' (2 * c.faults + 1) c.faults).countP p +
        (List.range' (3 * c.faults + 1) (2 * c.faults + 1)).countP p +
        (List.range' (5 * c.faults + 2) (c.size - (5 * c.faults + 2))).countP p := by
  have groups : c.nodes = List.range' 0 (2 * c.faults + 1) ++
      List.range' (2 * c.faults + 1) c.faults ++
      List.range' (3 * c.faults + 1) (2 * c.faults + 1) ++
      List.range' (5 * c.faults + 2) (c.size - (5 * c.faults + 2)) := by
    have joined : ∀ {start length next more : Nat}, start + length = next →
        List.range' start length ++ List.range' next more = List.range' start (length + more) := by
      rintro start length next more rfl
      exact List.range'_append_1
    rw [joined (by omega), joined (by omega), joined (by omega), Cluster.nodes,
      List.range_eq_range']
    congr 1
    omega
  rw [groups, List.countP_append, List.countP_append, List.countP_append]

theorem countP_range' {p : NodeId → Bool} (start length : Nat)
    (all : ∀ k, start ≤ k → k < start + length → p k = true) :
    (List.range' start length).countP p = length := by
  rw [List.countP_eq_length.mpr, List.length_range']
  intro k member
  obtain ⟨from_start, below⟩ := List.mem_range'_1.mp member
  exact all k from_start below

/-- The processes between the two groups are faulty. -/
def outsideGap (c : Cluster) (k : Nat) : Bool :=
  k < 2 * c.faults + 1 || 3 * c.faults + 1 ≤ k

/-- Every correct process votes once. -/
def splitElectorate (c : Cluster) (large : 5 * c.faults + 2 ≤ c.size) : Electorate c where
  correct := outsideGap c
  reports k r := r = ballot c (3 * c.faults + 1) k
  most := by
    have outside : ∀ k, k < 2 * c.faults + 1 ∨ 3 * c.faults + 1 ≤ k → outsideGap c k = true := by
      intro k either
      simpa [outsideGap] using either
    rw [countP_nodes large, countP_range' 0 _ fun k _ below => outside k (by omega),
      countP_range' (3 * c.faults + 1) _ fun k from_start _ => outside k (by omega),
      countP_range' (5 * c.faults + 2) _ fun k from_start _ => outside k (by omega)]
    omega
  once := by
    rintro k _ r r' rfl rfl a b votesA votesB _ _
    unfold ballot at votesA votesB
    split at votesA
    · rw [if_pos (by assumption)] at votesB
      rw [eq_of_carries_votingRecord votesA, eq_of_carries_votingRecord votesB]
    · next notFirst =>
        rw [if_neg notFirst] at votesB
        split at votesA
        · rw [if_pos (by assumption)] at votesB
          rw [eq_of_carries_votingRecord votesA, eq_of_carries_votingRecord votesB]
        · contradiction

theorem observes_ballots (large : 5 * c.faults + 2 ≤ c.size) {first : Nat}
    (atLeast : 2 * c.faults + 1 ≤ first) (atMost : first ≤ 3 * c.faults + 1) :
    (splitElectorate c large).Observes (ballots c first) := by
  intro k inCluster isCorrect
  rw [recordOf_ballots inCluster]
  have either : k < 2 * c.faults + 1 ∨ 3 * c.faults + 1 ≤ k := by
    simpa [splitElectorate, outsideGap] using isCorrect
  have sameGroup : k < first ↔ k < 3 * c.faults + 1 := by omega
  simp [splitElectorate, ballot, sameGroup]

/-- A process that votes for a request itself finds it with a quorum of votes. -/
theorem mem_knownWith_ballots {first i : Nat} {x : AssignedRequest}
    (inCluster : i < c.size) (own : ballot c first i = votingRecord .prepared [x])
    (quorum : c.adoptQuorum ≤
      c.nodes.countP fun k => ((ballots c first).recordOf k).carries x .prep) :
    x ∈ (ballots c first).knownWith (c.siteOf i) .prep := by
  refine mem_knownWith.mpr ⟨?_, quorum⟩
  rw [Agreement.own, Cluster.siteOf, recordOf_ballots inCluster, own]
  exact List.mem_singleton_self x

/-- Whenever correct processes vote for one client request at each place, no two of them ever find
different requests at one place with a quorum of votes, exactly if the cluster has at most `5F + 1`
processes. -/
theorem prepared_unique_iff (c : Cluster) :
    (∀ (e : Electorate c) (i j : NodeId) (s t : Agreement), i < c.size → j < c.size →
        e.correct i = true → e.correct j = true → e.Observes s → e.Observes t →
        ∀ a ∈ s.knownWith (c.siteOf i) .prep, ∀ b ∈ t.knownWith (c.siteOf j) .prep,
          a.view = b.view → a.seq = b.seq → a.request = b.request) ↔
      c.size ≤ 5 * c.faults + 1 := by
  constructor
  · intro unique
    by_contra few
    have large : 5 * c.faults + 2 ≤ c.size := by omega
    have votesFirst : ∀ k, k < 3 * c.faults + 1 →
        ballot c (3 * c.faults + 1) k = votingRecord .prepared [placedRequest 1 1] :=
      fun k below => if_pos below
    have votesSecond : ∀ k, 2 * c.faults + 1 ≤ k → k < 5 * c.faults + 2 →
        ballot c (2 * c.faults + 1) k = votingRecord .prepared [placedRequest 1 2] := by
      intro k from_start below
      rw [ballot, if_neg (by omega), if_pos below]
    have knownFirst : placedRequest 1 1 ∈
        (ballots c (3 * c.faults + 1)).knownWith (c.siteOf 0) .prep := by
      refine mem_knownWith_ballots (by omega) (votesFirst 0 (by omega)) ?_
      have carries : ∀ k, k < 3 * c.faults + 1 →
          ((ballots c (3 * c.faults + 1)).recordOf k).carries (placedRequest 1 1) .prep = true := by
        intro k below
        rw [recordOf_ballots (by omega), votesFirst k below]
        exact carries_votingRecord _
      rw [countP_nodes large, countP_range' 0 _ fun k _ below => carries k (by omega),
        countP_range' (2 * c.faults + 1) _ fun k _ below => carries k (by omega),
        Cluster.adoptQuorum]
      omega
    have knownSecond : placedRequest 1 2 ∈
        (ballots c (2 * c.faults + 1)).knownWith (c.siteOf (3 * c.faults + 1)) .prep := by
      refine mem_knownWith_ballots (by omega) (votesSecond _ (by omega) (by omega)) ?_
      have carries : ∀ k, 2 * c.faults + 1 ≤ k → k < 5 * c.faults + 2 →
          ((ballots c (2 * c.faults + 1)).recordOf k).carries (placedRequest 1 2) .prep = true := by
        intro k from_start below
        rw [recordOf_ballots (by omega), votesSecond k from_start below]
        exact carries_votingRecord _
      rw [countP_nodes large,
        countP_range' (2 * c.faults + 1) _ fun k from_start below =>
          carries k from_start (by omega),
        countP_range' (3 * c.faults + 1) _ fun k from_start below =>
          carries k (by omega) (by omega),
        Cluster.adoptQuorum]
      omega
    have firstInside : 0 < c.size := by omega
    have secondInside : 3 * c.faults + 1 < c.size := by omega
    have same := unique (splitElectorate c large) 0 (3 * c.faults + 1) _ _ firstInside secondInside
      (by simp [splitElectorate, outsideGap]) (by simp [splitElectorate, outsideGap])
      (observes_ballots large (by omega) (Nat.le_refl _))
      (observes_ballots large (Nat.le_refl _) (by omega)) _ knownFirst _ knownSecond rfl rfl
    exact absurd same (by decide)
  · intro few e i j s t _ _ _ _ observesS observesT a knownA b knownB sameView sameSeq
    obtain ⟨k, inCluster, isCorrect, votesA, votesB⟩ := e.exists_common few
      (mem_knownWith.mp knownA).2 (mem_knownWith.mp knownB).2
    exact e.once k isCorrect _ _ (observesS k inCluster isCorrect)
      (observesT k inCluster isCorrect) a b votesA votesB sameView sameSeq

/-! ### A cluster of seven -/

def sevenCluster : Cluster :=
  .new 7 1

/-- Process 0 of seven proposes one request to the processes 1 to 3, and another one for the same
place to the others. -/
def splitProposal (k : Nat) : AssignedRequest :=
  if k ≤ 3 then placedRequest 1 1 else placedRequest 1 2

/-- What a correct process makes of its proposal, and of the votes of some others. -/
def splitView (k : Nat) (others : List Nat) : Agreement :=
  after (sevenCluster.siteOf k) (proposing [splitProposal k] ++
    others.map fun j => .receive j (votingRecord .prepared [splitProposal j]))

/-- The record of a correct process when it has voted. -/
def splitVote (k : Nat) : Record :=
  (splitView k []).own (sevenCluster.siteOf k)

/-- A correct process enters the view with its proposal. -/
def splitEntered (k : Nat) : Agreement :=
  ((new (sevenCluster.siteOf k)).receive (sevenCluster.siteOf k) 0
    (votingRecord .prepared [splitProposal k])).enterView (sevenCluster.siteOf k) (.id 0) 0

theorem splitView_nil {k : Nat} (correct : k ∈ List.range' 1 6) :
    splitView k [] =
      ((splitEntered k).proceed (sevenCluster.siteOf k) (Ensemble.reporting 0) (.id 0) 0).1 := by
  have calm : (List.range' 1 6).all (fun k =>
      !(splitEntered k).mustFlush (sevenCluster.siteOf k)) = true := by cbv
  refine state_round_of_calm rfl ?_
    ((Bool.not_eq_true' _).mp (List.all_eq_true.mp calm k correct))
  show ((new (sevenCluster.siteOf k)).receive (sevenCluster.siteOf k) 0
    (votingRecord .prepared [splitProposal k])).flush = false
  unfold receive
  split <;> rfl

theorem splitView_eq (k : Nat) (others : List Nat) :
    splitView k others = others.foldl (fun s j => s.receive (sevenCluster.siteOf k) j
      (votingRecord .prepared [splitProposal j])) (splitView k []) := by
  unfold splitView
  rw [after_append, List.foldl_map, after_append]
  rfl

theorem splitVote_eq {k : Nat} (correct : k ∈ List.range' 1 6) :
    splitVote k = votingRecord .prepared [splitProposal k] := by
  have all : (List.range' 1 6).all (fun k =>
      ((splitEntered k).proceed (sevenCluster.siteOf k) (Ensemble.reporting 0) (.id 0) 0).1.own
        (sevenCluster.siteOf k) = votingRecord .prepared [splitProposal k]) = true := by cbv
  rw [splitVote, splitView_nil correct]
  exact of_decide_eq_true (List.all_eq_true.mp all k correct)

/-- A process shows the record it began with, or its vote. -/
def sevenElectorate : Electorate sevenCluster where
  correct k := k ∈ List.range' 1 6
  reports k r := r = Record.new 1 ∨ r = splitVote k
  most := by decide
  once := by
    intro k isCorrect r r' showsR showsR' a b votesA votesB _ _
    rw [splitVote_eq (of_decide_eq_true isCorrect)] at showsR showsR'
    rcases showsR with rfl | rfl
    · contradiction
    · rcases showsR' with rfl | rfl
      · contradiction
      · rw [eq_of_carries_votingRecord votesA, eq_of_carries_votingRecord votesB]

theorem observes_splitView {k : Nat} {others : List Nat}
    (shown : (List.range' 1 6).all (fun j => (splitView k others).recordOf j = Record.new 1 ||
      (splitView k others).recordOf j = votingRecord .prepared [splitProposal j]) = true) :
    sevenElectorate.Observes (splitView k others) := by
  intro j _ isCorrect
  have range : j ∈ List.range' 1 6 := of_decide_eq_true isCorrect
  have either := List.all_eq_true.mp shown j range
  simp only [Bool.or_eq_true, decide_eq_true_eq] at either
  rw [← splitVote_eq range] at either
  exact either

/-- Six correct processes out of seven vote once each, and two of them find different requests at
one place with a quorum of votes. -/
theorem seven_processes_know_both :
    5 * sevenCluster.faults < sevenCluster.size ∧
      sevenElectorate.correct 1 = true ∧ sevenElectorate.correct 4 = true ∧
      sevenElectorate.Observes (splitView 1 [2, 3]) ∧
      sevenElectorate.Observes (splitView 4 [5, 6]) ∧
      placedRequest 1 1 ∈ (splitView 1 [2, 3]).knownWith (sevenCluster.siteOf 1) .prep ∧
      placedRequest 1 2 ∈ (splitView 4 [5, 6]).knownWith (sevenCluster.siteOf 4) .prep ∧
      (placedRequest 1 1).view = (placedRequest 1 2).view ∧
      (placedRequest 1 1).seq = (placedRequest 1 2).seq ∧
      (placedRequest 1 1).request ≠ (placedRequest 1 2).request := by
  have first : 1 ∈ List.range' 1 6 := by decide
  have second : 4 ∈ List.range' 1 6 := by decide
  have knownFirst : (splitView 1 [2, 3]).knownWith (sevenCluster.siteOf 1) .prep =
      [placedRequest 1 1] := by
    rw [splitView_eq, splitView_nil first]
    cbv
  have knownSecond : (splitView 4 [5, 6]).knownWith (sevenCluster.siteOf 4) .prep =
      [placedRequest 1 2] := by
    rw [splitView_eq, splitView_nil second]
    cbv
  rw [knownFirst, knownSecond]
  refine ⟨by decide, by decide, by decide, observes_splitView ?_, observes_splitView ?_,
    List.mem_singleton_self _, List.mem_singleton_self _, rfl, rfl, by decide⟩
  · rw [splitView_eq, splitView_nil first]
    cbv
  · rw [splitView_eq, splitView_nil second]
    cbv

end QuorumList.Agreement
