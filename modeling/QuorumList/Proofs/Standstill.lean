import QuorumList.Proofs.CommonHistory
import QuorumList.Proofs.ViewChange

/-!
Standstill.

Can view establishment come to rest while the processes are apart?  Let everybody know how the
others stand.  A process that keeps its stance has selected to stay: an adopting quorum backs it, a
quorum that is steady somewhere else does not draw it away, and if it is on the way to a view then
too few others are with it or there already.

In a cluster of at most `6F + 1` processes two adopting quorums have a member in common.  So those
that are steady are steady in one view, and whoever is on the way is on the way to that view and
backed by those with the same stance only.  Then all that are on the way have one stance, and could
establish the view.
-/
namespace QuorumList

namespace Stance

open Establishment (adoptedPair phaseFor)

variable {n : Nat} {x y : Stance} {v : NodeId}

/-- Whoever adopts a stance that is apart from its own one changes its stance.  Only a process on
the reset pair may keep its pair, and then it leaves the steady phase. -/
theorem adopted_ne (legit : x.legit n = true) (apart : x.Apart y) : x.adopted n y ≠ x := by
  intro same
  have samePair : adoptedPair x.pair y.pair = x.pair := congrArg Stance.pair same
  have samePhase : phaseFor n (adoptedPair x.pair y.pair) = x.phase := congrArg Stance.phase same
  have other := apart.pair_ne
  rw [samePair] at samePhase
  have sameNext : y.pair.next = x.pair.next := by
    unfold adoptedPair at samePair
    dsimp only at samePair
    split at samePair
    · exact absurd samePair other
    · exact congrArg (·.next) samePair
  cases phase : x.phase with
  | change =>
      unfold Apart at apart
      rw [phase] at apart
      exact apart sameNext
  | steady =>
      -- A steady process keeps its view.  If it goes to the view of the other one, it takes that
      -- pair as it is.
      have moves : x.pair.current ≠ x.pair.next := by
        intro stays
        unfold adoptedPair at samePair
        dsimp only at samePair
        rw [if_pos (stays.trans sameNext.symm)] at samePair
        exact other samePair
      have change : phaseFor n x.pair = .change := by
        rw [phaseFor, if_pos]
        simp [ViewPair.legitChange, moves, typeCheck_of_legit legit]
      rw [change, phase] at samePhase
      contradiction

/-- Whoever advances changes its phase. -/
theorem advanced_ne : x.advanced n ≠ x := by
  intro same
  have samePhase : (x.advanced n).phase = x.phase := congrArg Stance.phase same
  unfold advanced at samePhase
  cases phase : x.phase with
  | steady => simp [phase] at samePhase
  | change => simp [phase] at samePhase

/-- A process in stance `y` supports that one in stance `x` stays there. -/
def Backs (x y : Stance) : Prop :=
  y = x ∨ y.phase ≠ x.phase ∧ y.pair.next = x.pair.current

instance (x y : Stance) : Decidable (x.Backs y) :=
  inferInstanceAs (Decidable (_ ∨ _))

/-- Whoever supports that processes stay in a view is there or on the way there. -/
theorem Backs.next_eq (backs : (steadyIn v).Backs y) : y.pair.next = .id v := by
  rcases backs with rfl | ⟨-, next⟩
  · rfl
  · exact next

theorem current_ne_next_of_legit (legit : x.legit n = true) (phase : x.phase = .change) :
    x.pair.current ≠ x.pair.next := by
  have change : x.pair.legitChange n = true := by
    rwa [Stance.legit, phase] at legit
  exact of_decide_eq_true (Bool.and_eq_true_iff.mp change).1

/-- A steady process that need not start over is steady in a view. -/
theorem eq_steadyIn_of_legit (legit : x.legit n = true) (phase : x.phase = .steady)
    (noReset : x.pair.isReset = false) : ∃ v, v < n ∧ x = .steadyIn v := by
  obtain ⟨_, current, next⟩ := x
  obtain rfl : _ = Phase.steady := phase
  simp only [Stance.legit, ViewPair.legitIn, ViewPair.legitSteady, noReset, Bool.or_false,
    Bool.and_eq_true, decide_eq_true_eq] at legit
  obtain ⟨rfl, fine⟩ := legit
  cases current with
  | tee => simp [ViewPair.typeCheck, View.isTee] at fine
  | id v =>
      refine ⟨v, ?_, rfl⟩
      simpa [ViewPair.typeCheck, View.isTee, View.inRange] using fine

end Stance

namespace Establishment

variable {site : Site} {s : Establishment} {σ : NodeId → Stance}

/-! ### What keeps a process in its place -/

/-- A process that keeps its stance has selected to stay. -/
theorem select_eq_stay_of_own_eq (sized : s.Sized site)
    (legit : (s.own site).legit site.cluster.size = true)
    (keeps : (s.perform site (s.select site)).state.own site = s.own site) :
    s.select site = .stay := by
  rcases select_cases site s with ⟨k, selected⟩ | selected | selected | selected
  · rw [selected, own_perform_adopt sized] at keeps
    exact absurd keeps (Stance.adopted_ne legit (of_adopts selected).1)
  · rw [selected, own_perform_advance sized] at keeps
    exact absurd keeps Stance.advanced_ne
  · exact selected
  · -- It would have been on the reset pair before, from which it advances.
    rw [selected] at keeps
    have own : s.own site = .reset := keeps.symm.trans (own_resetAll sized)
    have advances : s.mayAdvance site = true := by
      simp [mayAdvance, own, Stance.reset, ViewPair.isReset]
    rcases select_of_mayAdvance advances with ⟨k, adopts⟩ | advance
    · rw [selected] at adopts
      contradiction
    · rw [selected] at advance
      contradiction

/-- A process that stays may not advance, and an adopting quorum supports that it stays. -/
theorem of_stays (stays : s.select site = .stay) :
    s.mayAdvance site = false ∧
      s.adoptable site site.me (s.own site).phase .remain = true := by
  rw [select_eq] at stays
  split at stays
  · contradiction
  · split at stays
    · contradiction
    · next blocked =>
        split at stays
        · next supported => exact ⟨Bool.eq_false_iff.mpr blocked, supported⟩
        · contradiction

/-- What keeps a process in its place, where all know how the others stand. -/
structure Held (c : Cluster) (σ : NodeId → Stance) (k : NodeId) : Prop where
  legit : (σ k).legit c.size = true
  /-- An adopting quorum backs it. -/
  backed : c.adoptQuorum ≤ c.nodes.countP fun j => (σ k).Backs (σ j)
  /-- In the steady phase it is in a view. -/
  settled : (σ k).phase = .steady → ∃ v, v < c.size ∧ σ k = .steadyIn v
  /-- On the way to a view, too few are with it or there. -/
  delayed : (σ k).phase = .change →
    (c.nodes.countP fun j => σ j = σ k) +
        (c.nodes.countP fun j => (σ j).phase = .steady ∧ (σ j).pair.current = (σ k).pair.next) <
      c.establishQuorum
  /-- No adopting quorum is steady in a view that it would follow. -/
  unfollowed : ∀ v, v < c.size → (σ k).Apart (.steadyIn v) →
    (c.nodes.countP fun j => σ j = .steadyIn v) < c.adoptQuorum

theorem Knows.held (knows : s.Knows site σ) (sized : s.Sized site)
    (legit : ∀ j, j < site.cluster.size → (σ j).legit site.cluster.size = true)
    (stays : s.select site = .stay) : Held site.cluster σ site.me := by
  have own : s.own site = σ site.me := knows site.me sized.member
  have pair {j : NodeId} (inRange : j < site.cluster.size) : s.pairOf j = (σ j).pair :=
    (stanceOf_eq_iff.mp (knows j inRange)).2
  have phase {j : NodeId} (inRange : j < site.cluster.size) : s.phaseOf j = (σ j).phase :=
    (stanceOf_eq_iff.mp (knows j inRange)).1
  have fresh {j : NodeId} (inRange : j < site.cluster.size) : s.stale site j = false := by
    rw [stale, knows j inRange, legit j inRange]
    rfl
  obtain ⟨blocked, supported⟩ := of_stays stays
  constructor
  · exact legit site.me sized.member
  · refine Nat.le_trans (of_decide_eq_true supported)
      (List.countP_mono_left fun j listed backs => ?_)
    have inRange := List.mem_range.mp listed
    rw [own] at backs
    simp only [sameStance, samePair, inTransit, relates, pair inRange, pair sized.member,
      phase inRange, fresh inRange, Bool.not_false, Bool.and_true, Bool.or_eq_true,
      Bool.and_eq_true, decide_eq_true_eq] at backs
    refine decide_eq_true (backs.imp_left fun same => ?_)
    rw [← knows j inRange]
    exact stanceOf_eq_iff.mpr ⟨(phase inRange).trans same.2, (pair inRange).trans same.1⟩
  · intro steady
    refine Stance.eq_steadyIn_of_legit (legit site.me sized.member) steady ?_
    simp only [mayAdvance, own, steady, Bool.or_eq_false_iff] at blocked
    exact blocked.2
  · intro change
    simp only [mayAdvance, own, change, establishable, decide_eq_false_iff_not, Nat.not_le]
      at blocked
    refine Nat.lt_of_le_of_lt (Nat.add_le_add ?_ ?_) blocked
    · refine List.countP_mono_left fun j listed same => ?_
      have inRange := List.mem_range.mp listed
      have same : σ j = σ site.me := of_decide_eq_true same
      simp [sameStance, samePair, pair inRange, pair sized.member, phase inRange, fresh inRange,
        same, change]
    · refine List.countP_mono_left fun j listed there => ?_
      have inRange := List.mem_range.mp listed
      have there : (σ j).phase = .steady ∧ (σ j).pair.current = (σ site.me).pair.next :=
        of_decide_eq_true there
      simp [inTransit, relates, pair inRange, pair sized.member, phase inRange, fresh inRange,
        there.1, there.2]
  · intro v inView apart
    refine Nat.lt_of_not_le fun quorum => ?_
    rw [← knows.seen_eq] at quorum
    rw [← own] at apart
    obtain ⟨j, inRange, there⟩ := exists_of_seen quorum
    have other : j ≠ site.me := fun itself => by
      subst itself
      exact apart.pair_ne (congrArg Stance.pair there).symm
    have several : 2 ≤ site.cluster.size := by
      rcases Nat.lt_or_gt_of_ne other with before | after
      · exact Nat.lt_of_le_of_lt (Nat.succ_le_of_lt (Nat.zero_lt_of_lt before)) sized.member
      · exact Nat.lt_of_le_of_lt (Nat.succ_le_of_lt (Nat.zero_lt_of_lt after)) inRange
    obtain ⟨k, adopts⟩ := exists_adopts_of_seen several ⟨v, inView, .inl rfl⟩ apart quorum
    rw [stays] at adopts
    contradiction

/-! ### Counting -/

/-- In a cluster of at most `6F + 1` processes two adopting quorums have a member in common. -/
theorem exists_both {c : Cluster} (bounded : c.size ≤ 6 * c.faults + 1) {p q : NodeId → Bool}
    (quorumP : c.adoptQuorum ≤ c.nodes.countP p) (quorumQ : c.adoptQuorum ≤ c.nodes.countP q) :
    ∃ j, j < c.size ∧ p j = true ∧ q j = true := by
  have both := countP_add_countP_le p q c.nodes
  have size : c.nodes.length = c.size := List.length_range
  have some : 0 < c.nodes.countP fun j => p j && q j := by
    simp only [Cluster.adoptQuorum] at quorumP quorumQ
    omega
  obtain ⟨j, listed, holds⟩ := List.countP_pos_iff.mp some
  exact ⟨j, List.mem_range.mp listed, Bool.and_eq_true_iff.mp holds⟩

theorem exists_of_countP_lt {c : Cluster} {p q : NodeId → Bool}
    (fewer : c.nodes.countP q < c.nodes.countP p) :
    ∃ j, j < c.size ∧ p j = true ∧ q j = false := by
  refine Classical.byContradiction fun none => ?_
  refine Nat.not_le.mpr fewer (List.countP_mono_left fun j listed holds => ?_)
  cases other : q j with
  | true => rfl
  | false => exact absurd ⟨j, List.mem_range.mp listed, holds, other⟩ none

/-- If nobody is steady where a process comes from, only those in the same stance back it. -/
theorem Held.quorum_same {c : Cluster} {k : NodeId} (held : Held c σ k)
    (phase : (σ k).phase = .change)
    (left : ∀ j, j < c.size → (σ j).phase = .steady → (σ j).pair.next ≠ (σ k).pair.current) :
    c.adoptQuorum ≤ c.nodes.countP fun j => σ j = σ k := by
  refine Nat.le_trans held.backed (List.countP_mono_left fun j listed backs => ?_)
  rcases of_decide_eq_true backs with same | ⟨other, next⟩
  · exact decide_eq_true same
  · have steady : (σ j).phase = .steady := by
      cases found : (σ j).phase with
      | steady => rfl
      | change => exact absurd (found.trans phase.symm) other
    exact absurd next (left j (List.mem_range.mp listed) steady)

section Counting

variable {c : Cluster} {k m : NodeId} {u v : NodeId} (bounded : c.size ≤ 6 * c.faults + 1)
  (held : ∀ k, k < c.size → Held c σ k)

include bounded held

/-- All that are steady are steady in one view. -/
theorem eq_of_held (inK : k < c.size) (inM : m < c.size) (steadyK : σ k = .steadyIn v)
    (steadyM : σ m = .steadyIn u) : u = v := by
  obtain ⟨j, -, backsK, backsM⟩ := exists_both bounded (held k inK).backed (held m inM).backed
  rw [steadyK] at backsK
  rw [steadyM] at backsM
  have atV := (of_decide_eq_true backsK).next_eq
  have atU := (of_decide_eq_true backsM).next_eq
  exact View.id.inj (atU.symm.trans atV)

/-- If a process is steady in a view, all that are on the way are on the way to it. -/
theorem next_eq_of_held (inK : k < c.size) (inM : m < c.size) (steady : σ k = .steadyIn v)
    (change : (σ m).phase = .change) : (σ m).pair.next = .id v := by
  refine Decidable.byContradiction fun elsewhere => ?_
  have steadyNext : ∀ j, j < c.size → (σ j).phase = .steady → (σ j).pair = .steady (.id v) := by
    intro j inJ phase
    obtain ⟨u, -, there⟩ := (held j inJ).settled phase
    rw [there, eq_of_held bounded held inK inJ steady there]
    rfl
  -- A common member of the quorums behind the two is steady in the view, so the process on the way
  -- comes from there, and would follow a quorum there.
  have origin : (σ m).pair.current = .id v := by
    obtain ⟨j, inJ, backsK, backsM⟩ :=
      exists_both bounded (held k inK).backed (held m inM).backed
    rw [steady] at backsK
    have next := (of_decide_eq_true backsK).next_eq
    rcases of_decide_eq_true backsM with same | ⟨-, back⟩
    · rw [same] at next
      exact absurd next elsewhere
    · rw [← back, next]
  have inView : v < c.size := by
    obtain ⟨u, inU, there⟩ := (held k inK).settled (by rw [steady]; rfl)
    rwa [eq_of_held bounded held inK inK steady there] at inU
  have apart : (σ m).Apart (.steadyIn v) := by
    simpa [Stance.Apart, change, Stance.steadyIn, ViewPair.steady] using Ne.symm elsewhere
  have few := (held m inM).unfollowed v inView apart
  -- So some of the quorum behind the steady process are on the way to the view.  They are backed by
  -- their own kind only, but the process on the way from the view is not of that kind.
  obtain ⟨i, inI, backs, notThere⟩ :=
    exists_of_countP_lt (Nat.lt_of_lt_of_le few (held k inK).backed)
  rw [steady] at backs
  have arriving := (of_decide_eq_true backs).next_eq
  have changeI : (σ i).phase = .change := by
    rcases of_decide_eq_true backs with same | ⟨other, -⟩
    · exact absurd same (of_decide_eq_false notThere)
    · cases found : (σ i).phase with
      | steady => exact absurd found other
      | change => rfl
  have comes := Stance.current_ne_next_of_legit (held i inI).legit changeI
  have same := (held i inI).quorum_same changeI fun j inJ phase => by
    rw [steadyNext j inJ phase]
    exact fun next => comes (next.symm.trans arriving.symm)
  obtain ⟨j, -, isI, backsM⟩ := exists_both bounded same (held m inM).backed
  have isI : σ j = σ i := of_decide_eq_true isI
  rcases of_decide_eq_true backsM with isM | ⟨other, -⟩
  · rw [← isM, isI] at elsewhere
    exact elsewhere arriving
  · rw [isI, changeI, change] at other
    contradiction

/-- Nobody is on the way. -/
theorem steady_of_held (enough : 4 * c.faults < c.size) (inM : m < c.size) :
    (σ m).phase = .steady := by
  cases changeM : (σ m).phase with
  | steady => rfl
  | change =>
      exfalso
      have alone : ∀ i, i < c.size → (σ i).phase = .change →
          c.adoptQuorum ≤ c.nodes.countP fun j => σ j = σ i := by
        intro i inI changeI
        refine (held i inI).quorum_same changeI fun j inJ steadyJ => ?_
        obtain ⟨v, -, there⟩ := (held j inJ).settled steadyJ
        have arriving := next_eq_of_held bounded held inJ inI there changeI
        have comes := Stance.current_ne_next_of_legit (held i inI).legit changeI
        rw [there]
        exact fun next => comes (next.symm.trans arriving.symm)
      have everybody : ∀ j, j < c.size →
          σ j = σ m ∨ (σ j).phase = .steady ∧ (σ j).pair.current = (σ m).pair.next := by
        intro j inJ
        cases phase : (σ j).phase with
        | steady =>
            obtain ⟨v, -, there⟩ := (held j inJ).settled phase
            rw [next_eq_of_held bounded held inJ inM there changeM, there]
            exact .inr ⟨rfl, rfl⟩
        | change =>
            obtain ⟨i, -, isJ, isM⟩ := exists_both bounded (alone j inJ phase) (alone m inM changeM)
            exact .inl ((of_decide_eq_true isJ).symm.trans (of_decide_eq_true isM))
      have size := size_le_countP_add (c := c) fun j inJ =>
        (everybody j inJ).imp decide_eq_true decide_eq_true
      have few := (held m inM).delayed changeM
      exact absurd (Nat.lt_of_le_of_lt size few) (Nat.not_lt.mpr enough)

end Counting

end Establishment

namespace Council

open Establishment

variable {c : Cluster} {e : Council} {answers : NodeId → Answers} {v : NodeId}

/-- All processes have legitimate stances, know how the others stand, and want no change. -/
structure Calm (c : Cluster) (e : Council) : Prop extends e.Legitimate c where
  informed : e.All fun k s => s.Knows (c.siteOf k) (e.standing c)
  unwished : e.All fun _ s => s.changeWanted = false

/-- No process would leave its stance in a round. -/
def Still (c : Cluster) (answers : NodeId → Answers) (e : Council) : Prop :=
  e.All fun k s => (s.round (c.siteOf k) (answers k)).state.own (c.siteOf k) = s.own (c.siteOf k)

theorem Legitimate.legit_standing (legitimate : e.Legitimate c) {k : NodeId} (member : k < c.size) :
    (e.standing c k).legit c.size = true := by
  obtain ⟨s, found⟩ := legitimate.sized.found member
  rw [standing_eq found]
  exact legitimate.legit k s found

/-- Where nobody moves, every process is held in its place. -/
theorem Calm.held (calm : e.Calm c) (unasked : ∀ k, (answers k).needFlush = false)
    (still : e.Still c answers) {k : NodeId} (member : k < c.size) : Held c (e.standing c) k := by
  have legit := fun j (inRange : j < c.size) => calm.legit_standing inRange
  obtain ⟨s, found⟩ := calm.sized.found member
  have sized := (calm.sized.tables k s found).sanitizePeers
  have knows := (calm.informed k s found).sanitizePeers legit
  have own := own_sanitizePeers (c.siteOf k) s
  have mine : (s.own (c.siteOf k)).legit c.size = true := calm.legit k s found
  have keeps : (s.round (c.siteOf k) (answers k)).state.own (c.siteOf k) = s.own (c.siteOf k) :=
    still k s found
  rw [round_eq_perform mine (unasked k), ← own] at keeps
  rw [← own] at mine
  exact knows.held sized legit (select_eq_stay_of_own_eq sized mine keeps)

/-- Processes that are all steady in one view stay there. -/
theorem Calm.still_of_steadyIn (calm : e.Calm c) (unasked : ∀ k, (answers k).needFlush = false)
    (enough : c.adoptQuorum ≤ c.size) (inView : v < c.size)
    (gathered : ∀ k, k < c.size → e.standing c k = .steadyIn v) : e.Still c answers := by
  intro k s found
  have member := (calm.sized.tables k s found).member
  have own := (standing_eq found).symm.trans (gathered k member)
  have steadfast : s.Steadfast (c.siteOf k) (fun _ => false) v :=
    { own := own
      sees := fun j inRange _ => (calm.informed k s found j inRange).trans (gathered j inRange)
      unwished := calm.unwished k s found }
  have outnumbered : Outnumbered (c.siteOf k).cluster fun _ => false :=
    ⟨by simp, by simpa [Cluster.nodes, Cluster.siteOf] using enough⟩
  rw [steadfast.round_eq_stay outnumbered inView (unasked k)]
  exact own_sanitizePeers (c.siteOf k) s

/-- In a cluster that has an establishing quorum, and in which two adopting quorums have a member in
common, processes that know each other and want no change come to rest in one view only. -/
theorem standstill_iff_in_one_view (enough : 4 * c.faults < c.size)
    (bounded : c.size ≤ 6 * c.faults + 1) (calm : e.Calm c)
    (unasked : ∀ k, (answers k).needFlush = false) :
    e.Still c answers ↔ ∃ v, v < c.size ∧ ∀ k, k < c.size → e.standing c k = .steadyIn v := by
  constructor
  · intro still
    have held : ∀ k, k < c.size → Held c (e.standing c) k :=
      fun k member => calm.held unasked still member
    have first : 0 < c.size := Nat.zero_lt_of_lt enough
    have steady {k : NodeId} (member : k < c.size) :=
      (held k member).settled (steady_of_held bounded held enough member)
    obtain ⟨v, inView, at_⟩ := steady first
    refine ⟨v, inView, fun k member => ?_⟩
    obtain ⟨u, -, there⟩ := steady member
    rw [there, eq_of_held bounded held first member at_ there]
  · rintro ⟨v, inView, gathered⟩
    refine calm.still_of_steadyIn unasked ?_ inView gathered
    rw [Cluster.adoptQuorum]
    omega

/-- Processes that stand in given stances and know each other. -/
def assembled (c : Cluster) (σ : NodeId → Stance) : Council :=
  { processes := c.nodes.map fun _ =>
      { pairs := c.nodes.map fun k => (σ k).pair
        phases := c.nodes.map fun k => (σ k).phase
        echoes := List.replicate c.size none
        changeWanted := false }
    inFlight := []
    events := [] }

theorem calm_assembled {σ : NodeId → Stance} (legit : ∀ k, k < c.size → (σ k).legit c.size = true) :
    (assembled c σ).Calm c ∧ ∀ k, k < c.size → (assembled c σ).standing c k = σ k := by
  have shown {k : NodeId} {s : Establishment} (found : (assembled c σ).processes[k]? = some s) :
      s.Sized (c.siteOf k) ∧ s.changeWanted = false ∧ s.Knows (c.siteOf k) σ := by
    simp only [assembled, Cluster.nodes, List.getElem?_map, Option.map_eq_some_iff] at found
    obtain ⟨i, listed, rfl⟩ := found
    obtain ⟨member, -⟩ := List.getElem?_eq_some_iff.mp listed
    rw [List.length_range] at member
    refine ⟨⟨member, by simp [Cluster.siteOf], by simp [Cluster.siteOf], by simp [Cluster.siteOf]⟩,
      rfl, fun j inRange => ?_⟩
    have inTable : j < c.size := inRange
    simp [stanceOf, pairOf, phaseOf, inTable]
  have sized : (assembled c σ).Sized c :=
    ⟨by simp [assembled, Cluster.nodes], fun k s found => (shown found).1⟩
  have standing : ∀ k, k < c.size → (assembled c σ).standing c k = σ k := by
    intro k member
    obtain ⟨s, found⟩ := sized.found member
    rw [standing_eq found]
    exact (shown found).2.2 k member
  refine ⟨⟨⟨sized, fun k s found => ?_⟩, fun k s found j inRange => ?_, fun k s found => ?_⟩,
    standing⟩
  · obtain ⟨inTables, -, knows⟩ := shown found
    have own : s.own (c.siteOf k) = σ k := knows k inTables.member
    rw [own]
    exact legit k inTables.member
  · rw [(shown found).2.2 j inRange]
    exact (standing j inRange).symm
  · exact (shown found).2.1

/-- Half of the processes have left the first view, half are still there. -/
def halfWay (n : Nat) (k : NodeId) : Stance :=
  if 2 * k < n then .steadyIn 0 else .leaving n 0

/-- Half-way through a change of view, some of six processes moves on. -/
theorem half_way_council_moves :
    (assembled (.new 6 1) (halfWay 6)).Calm (.new 6 1) ∧
      ¬ (assembled (.new 6 1) (halfWay 6)).Still (.new 6 1) fun _ => .unavailable := by
  obtain ⟨calm, standing⟩ := calm_assembled (c := .new 6 1) (σ := halfWay 6) (by decide)
  refine ⟨calm, fun still => ?_⟩
  obtain ⟨v, -, gathered⟩ :=
    (standstill_iff_in_one_view (by decide) (by decide) calm fun _ => rfl).mp still
  have left := (standing 5 (by decide)).symm.trans (gathered 5 (by decide))
  exact Phase.noConfusion (congrArg Stance.phase left)

end Council

end QuorumList
