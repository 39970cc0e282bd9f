import QuorumList.Proofs.Stances

/-!
Steps of a view change.

A view change takes a process from the steady stance in a view, over the way to the next view, to
the steady stance there.  These stances are the steps, and each step has one after it, around the
ring of views.

If all processes are seen on two steps then, in a cluster of `6F + 1` processes, an adopting quorum
is seen on one of them.  If it is the own step, the process may stay; otherwise it can follow the
others.  So it need not start over.
-/
namespace QuorumList

namespace Stance

open Establishment (adoptedPair phaseFor)

/-- The stance to which a process advances. -/
def advanced (n : Nat) (x : Stance) : Stance :=
  match x.phase with
  | .steady => { phase := .change, pair := { x.pair with next := x.pair.current.successor n } }
  | .change => { phase := .steady, pair := .steady x.pair.next }

/-- The stance of a process that adopts another one. -/
def adopted (n : Nat) (x y : Stance) : Stance :=
  { phase := phaseFor n (adoptedPair x.pair y.pair), pair := adoptedPair x.pair y.pair }

/-- A stance in the course of a view change: steady in a view, or on the way to the next one. -/
def IsStep (n : Nat) (x : Stance) : Prop :=
  ∃ u, u < n ∧ (x = .steadyIn u ∨ x = .leaving n u)

variable {n : Nat} {x y : Stance}

theorem advanced_steadyIn {u : NodeId} (inRange : u < n) :
    (Stance.steadyIn u).advanced n = .leaving n u := by
  simp [advanced, steadyIn, leaving, ViewPair.steady, View.successor,
    Nat.max_eq_left (Nat.one_le_of_lt inRange)]

theorem advanced_leaving {u : NodeId} :
    (Stance.leaving n u).advanced n = .steadyIn ((u + 1) % n) := rfl

theorem IsStep.advanced (step : x.IsStep n) : (x.advanced n).IsStep n := by
  obtain ⟨u, inRange, rfl | rfl⟩ := step
  · exact ⟨u, inRange, .inr (advanced_steadyIn inRange)⟩
  · exact ⟨(u + 1) % n, Nat.mod_lt _ (Nat.zero_lt_of_lt inRange), .inl advanced_leaving⟩

theorem IsStep.legit (step : x.IsStep n) (several : 2 ≤ n) : x.legit n = true := by
  obtain ⟨u, inRange, rfl | rfl⟩ := step
  · exact legit_steadyIn inRange
  · exact legit_leaving several inRange

/-- Two steps are apart, or they are the same, or the first one is on the way to the second one. -/
theorem IsStep.apart_or (mine : x.IsStep n) (theirs : y.IsStep n) (several : 2 ≤ n) :
    x.Apart y ∨ y = x ∨ ∃ u, u < n ∧ x = .leaving n u ∧ y = .steadyIn ((u + 1) % n) := by
  obtain ⟨u, inRangeU, rfl | rfl⟩ := mine
  · obtain ⟨w, inRangeW, rfl | rfl⟩ := theirs
    · by_cases same : w = u
      · exact .inr (.inl (by rw [same]))
      · exact .inl (by simp [Apart, steadyIn, ViewPair.steady, same])
    · left
      have moves := ne_successor several inRangeW
      simp only [Apart, steadyIn, leaving, ViewPair.steady, ne_eq, ViewPair.mk.injEq,
        View.id.injEq]
      rintro ⟨rfl, back⟩
      exact moves back.symm
  · obtain ⟨w, inRangeW, rfl | rfl⟩ := theirs
    · -- The only step that is neither the own one nor apart from it: the other process is where
      -- this one is going, and need not be followed, as this one can advance.
      by_cases same : w = (u + 1) % n
      · exact .inr (.inr ⟨u, inRangeU, rfl, by rw [same]⟩)
      · exact .inl (by simp [Apart, steadyIn, leaving, ViewPair.steady, same])
    · by_cases same : (w + 1) % n = (u + 1) % n
      · exact .inr (.inl (by rw [eq_of_successor_eq inRangeW inRangeU same]))
      · exact .inl (by simp [Apart, leaving, same])

/-- The way back from a step is always open. -/
theorem IsStep.apart_advanced (step : x.IsStep n) (several : 2 ≤ n) : (x.advanced n).Apart x := by
  obtain ⟨u, inRange, rfl | rfl⟩ := step
  · rw [advanced_steadyIn inRange]
    simp [Apart, leaving, steadyIn, ViewPair.steady, ne_successor several inRange]
  · rw [advanced_leaving]
    simp [Apart, leaving, steadyIn, ViewPair.steady, ne_successor several inRange]

/-- Of two steps in a row, a process on the one that can adopt the other one takes it as it is. -/
theorem IsStep.adopted_eq (step : x.IsStep n) (several : 2 ≤ n)
    (next : y = x.advanced n ∨ x = y.advanced n) (theirs : y.IsStep n) (apart : x.Apart y) :
    x.adopted n y = y := by
  have takes : ∀ u, u < n → (steadyIn u).adopted n (leaving n u) = leaving n u := by
    intro u inRange
    have moves := ne_successor several inRange
    have next : (u + 1) % n < n := Nat.mod_lt _ (Nat.zero_lt_of_lt inRange)
    simp [adopted, adoptedPair, phaseFor, steadyIn, leaving, ViewPair.steady, ViewPair.legitChange,
      ViewPair.typeCheck, View.isTee, View.inRange, moves, next, inRange]
  have returns : ∀ u, u < n → (leaving n u).adopted n (steadyIn u) = steadyIn u := by
    intro u inRange
    simp [adopted, adoptedPair, phaseFor, steadyIn, leaving, ViewPair.steady, ViewPair.legitChange]
  have goesBack : ∀ u, u < n → (steadyIn ((u + 1) % n)).adopted n (leaving n u) = leaving n u := by
    intro u inRange
    have moves := ne_successor several inRange
    have next : (u + 1) % n < n := Nat.mod_lt _ (Nat.zero_lt_of_lt inRange)
    simp [adopted, adoptedPair, phaseFor, steadyIn, leaving, ViewPair.steady, ViewPair.legitChange,
      ViewPair.typeCheck, View.isTee, View.inRange, moves, next, inRange]
  rcases next with rfl | rfl
  · obtain ⟨u, inRange, rfl | rfl⟩ := step
    · rw [advanced_steadyIn inRange]
      exact takes u inRange
    · exact absurd rfl apart
  · obtain ⟨u, inRange, rfl | rfl⟩ := theirs
    · rw [advanced_steadyIn inRange]
      exact returns u inRange
    · exact goesBack u inRange

end Stance

namespace Establishment

variable {site : Site} {s : Establishment} {x y : Stance} {k : NodeId}

/-! ### Following, staying and advancing -/

/-- If somebody may be adopted, somebody is. -/
theorem exists_adopts (inRange : k < site.cluster.size) (apart : (s.own site).Apart (s.stanceOf k))
    (adoptable : s.adoptable site k (s.own site).phase .follow = true) :
    ∃ j, s.select site = .adopt j := by
  have other : k ≠ site.me := fun itself => apart.pair_ne (by rw [itself]; rfl)
  have listed : k ∈ site.others := by simp [Site.others, Cluster.nodes, inRange, other]
  rw [select_eq]
  cases found : s.followed site with
  | some j => exact ⟨j, rfl⟩
  | none =>
      have refused := List.find?_eq_none.mp found k listed
      simp [apart, adoptable] at refused

/-- A process that may stay does not start over. -/
theorem select_ne_reset_of_adoptable
    (stays : s.adoptable site site.me (s.own site).phase .remain = true) :
    s.select site ≠ .reset := by
  rw [select_eq]
  split
  · exact Case.noConfusion
  · split <;> exact Case.noConfusion

theorem select_of_mayAdvance (advances : s.mayAdvance site = true) :
    (∃ k, s.select site = .adopt k) ∨ s.select site = .advance := by
  rw [select_eq]
  split
  · next j _ => exact .inl ⟨j, rfl⟩
  · rw [if_pos advances]
    exact .inr rfl

/-! ### Counting -/

/-- How many processes are seen in a stance. -/
def seen (site : Site) (x : Stance) (s : Establishment) : Nat :=
  site.cluster.nodes.countP fun k => s.stanceOf k = x

/-- Every process is seen in one of two stances. -/
def SeesTwo (site : Site) (x y : Stance) (s : Establishment) : Prop :=
  ∀ k, k < site.cluster.size → s.stanceOf k = x ∨ s.stanceOf k = y

theorem SeesTwo.symm (two : s.SeesTwo site x y) : s.SeesTwo site y x :=
  fun k inRange => (two k inRange).symm

/-- If each process has one of two properties, no process is left uncounted. -/
theorem size_le_countP_add {c : Cluster} {p q : NodeId → Bool}
    (either : ∀ k, k < c.size → p k = true ∨ q k = true) :
    c.size ≤ c.nodes.countP p + c.nodes.countP q := by
  have all : c.size = c.nodes.length := by simp [Cluster.nodes]
  rw [all, List.length_eq_countP_add_countP p]
  refine Nat.add_le_add_left (List.countP_mono_left fun k listed notFirst => ?_) _
  exact (either k (List.mem_range.mp listed)).resolve_left (by simpa using notFirst)

theorem SeesTwo.size_le (two : s.SeesTwo site x y) :
    site.cluster.size ≤ s.seen site x + s.seen site y :=
  size_le_countP_add fun k inRange => (two k inRange).imp decide_eq_true decide_eq_true

/-- One of two stances is held by an adopting quorum. -/
theorem SeesTwo.quorum (two : s.SeesTwo site x y)
    (large : 6 * site.cluster.faults + 1 ≤ site.cluster.size) :
    site.cluster.adoptQuorum ≤ s.seen site x ∨ site.cluster.adoptQuorum ≤ s.seen site y := by
  have size := two.size_le
  simp only [Cluster.adoptQuorum]
  omega

theorem exists_of_seen (quorum : site.cluster.adoptQuorum ≤ s.seen site x) :
    ∃ k, k < site.cluster.size ∧ s.stanceOf k = x := by
  have some : 0 < s.seen site x := Nat.lt_of_lt_of_le (Nat.succ_pos _) quorum
  obtain ⟨k, listed, holds⟩ := List.countP_pos_iff.mp some
  exact ⟨k, List.mem_range.mp listed, by simpa using holds⟩

theorem not_stale_of_step (several : 2 ≤ site.cluster.size) (step : x.IsStep site.cluster.size)
    (at_ : s.stanceOf k = x) : s.stale site k = false := by
  rw [stale, at_, step.legit several]
  rfl

/-- An adopting quorum of supporters makes a process adoptable. -/
theorem adoptable_of_seen {phase : Phase} {mode : Mode}
    (supports : ∀ j, s.stanceOf j = x →
      (s.sameStance site k phase j || s.inTransit site k phase mode j) = true)
    (quorum : site.cluster.adoptQuorum ≤ s.seen site x) :
    s.adoptable site k phase mode = true :=
  decide_eq_true (Nat.le_trans quorum (List.countP_mono_left fun j _ held =>
    supports j (by simpa using held)))

/-- Whoever stands on the same step as a process supports that it is followed, in either phase. -/
theorem adoptable_follow (several : 2 ≤ site.cluster.size) (step : y.IsStep site.cluster.size)
    (held : s.stanceOf k = y) (quorum : site.cluster.adoptQuorum ≤ s.seen site y) (phase : Phase) :
    s.adoptable site k phase .follow = true := by
  refine adoptable_of_seen (fun j same => ?_) quorum
  have fresh := not_stale_of_step several step same
  obtain ⟨kPhase, kPair⟩ := stanceOf_eq_iff.mp held
  obtain ⟨jPhase, jPair⟩ := stanceOf_eq_iff.mp same
  obtain ⟨u, inRange, rfl | rfl⟩ := step
  · cases phase with
    | steady => simp [sameStance, samePair, jPair, kPair, jPhase, fresh, Stance.steadyIn]
    | change =>
        simp [inTransit, relates, jPair, kPair, jPhase, fresh, Stance.steadyIn, ViewPair.steady]
  · cases phase with
    | steady =>
        simp [inTransit, relates, jPair, kPair, jPhase, fresh, Stance.leaving, View.successor,
          Nat.max_eq_left (Nat.le_trans (Nat.le_succ 1) several)]
    | change => simp [sameStance, samePair, jPair, kPair, jPhase, fresh, Stance.leaving]

/-- Whoever stands on the own step supports that the process stays. -/
theorem adoptable_remain (legit : (s.own site).legit site.cluster.size = true)
    (quorum : site.cluster.adoptQuorum ≤ s.seen site (s.own site)) :
    s.adoptable site site.me (s.own site).phase .remain = true := by
  refine adoptable_of_seen (fun j same => ?_) quorum
  have fresh : s.stale site j = false := by
    rw [stale, same, legit]
    rfl
  obtain ⟨jPhase, jPair⟩ := stanceOf_eq_iff.mp same
  have mine : s.pairOf site.me = (s.own site).pair := rfl
  simp [sameStance, samePair, jPair, jPhase, fresh, mine]

/-- Among two stances only the other one is followed, and only if an adopting quorum holds it. -/
theorem SeesTwo.held_of_adopts (two : s.SeesTwo site (s.own site) y)
    (adopts : s.select site = .adopt k) :
    s.stanceOf k = y ∧ site.cluster.adoptQuorum ≤ s.seen site y := by
  obtain ⟨apart, adoptable⟩ := of_adopts adopts
  have other : s.pairOf k ≠ (s.own site).pair := apart.pair_ne
  refine ⟨(two k (of_select_eq_adopt adopts).2).resolve_left
    fun own => other (stanceOf_eq_iff.mp own).2, ?_⟩
  refine Nat.le_trans (of_decide_eq_true adoptable)
    (List.countP_mono_left fun j listed supports => ?_)
  have held := (two j (List.mem_range.mp listed)).resolve_left fun own => by
    rw [not_supports own other] at supports
    contradiction
  simpa using held

/-- On the way to the next view, with all others there or steady in it, a process can establish
it. -/
theorem SeesTwo.mayAdvance {u : NodeId} (inRange : u < site.cluster.size)
    (several : 2 ≤ site.cluster.size)
    (large : 4 * site.cluster.faults + 1 ≤ site.cluster.size)
    (own : s.own site = .leaving site.cluster.size u)
    (two : s.SeesTwo site (.leaving site.cluster.size u)
      (.steadyIn ((u + 1) % site.cluster.size))) :
    s.mayAdvance site = true := by
  have next : (u + 1) % site.cluster.size < site.cluster.size :=
    Nat.mod_lt _ (Nat.zero_lt_of_lt inRange)
  have mine : s.pairOf site.me = (Stance.leaving site.cluster.size u).pair :=
    (stanceOf_eq_iff.mp own).2
  have here : s.seen site (.leaving site.cluster.size u) ≤
      site.cluster.nodes.countP (s.sameStance site site.me .change) := by
    refine List.countP_mono_left fun j _ held => ?_
    have same : s.stanceOf j = .leaving site.cluster.size u := by simpa using held
    have fresh := not_stale_of_step several ⟨u, inRange, .inr rfl⟩ same
    obtain ⟨jPhase, jPair⟩ := stanceOf_eq_iff.mp same
    simp [sameStance, samePair, jPair, jPhase, fresh, mine, Stance.leaving]
  have there : s.seen site (.steadyIn ((u + 1) % site.cluster.size)) ≤
      site.cluster.nodes.countP (s.inTransit site site.me .change .follow) := by
    refine List.countP_mono_left fun j _ held => ?_
    have arrived : s.stanceOf j = .steadyIn ((u + 1) % site.cluster.size) := by simpa using held
    have fresh := not_stale_of_step several ⟨_, next, .inl rfl⟩ arrived
    obtain ⟨jPhase, jPair⟩ := stanceOf_eq_iff.mp arrived
    simp [inTransit, relates, jPair, jPhase, fresh, mine, Stance.leaving, Stance.steadyIn,
      ViewPair.steady]
  have size := two.size_le
  have enough : s.establishable site .change .follow = true := by
    refine decide_eq_true ?_
    rw [Cluster.establishQuorum]
    omega
  simp only [Establishment.mayAdvance, own, Stance.leaving]
  exact enough

/-- Whoever sees an adopting quorum on a step that is apart from its own one follows somebody. -/
theorem exists_adopts_of_seen (several : 2 ≤ site.cluster.size)
    (step : y.IsStep site.cluster.size) (apart : (s.own site).Apart y)
    (quorum : site.cluster.adoptQuorum ≤ s.seen site y) : ∃ k, s.select site = .adopt k := by
  obtain ⟨k, inRange, held⟩ := exists_of_seen quorum
  exact exists_adopts inRange (held ▸ apart) (adoptable_follow several step held quorum _)

/-- A process that sees all processes on two steps does not start over. -/
theorem SeesTwo.select_ne_reset (two : s.SeesTwo site (s.own site) y)
    (several : 2 ≤ site.cluster.size) (large : 6 * site.cluster.faults + 1 ≤ site.cluster.size)
    (mine : (s.own site).IsStep site.cluster.size) (theirs : y.IsStep site.cluster.size) :
    s.select site ≠ .reset := by
  rcases two.quorum large with own | other
  · exact select_ne_reset_of_adoptable (adoptable_remain (mine.legit several) own)
  rcases mine.apart_or theirs several with apart | same | ⟨u, inRange, leaves, steady⟩
  · obtain ⟨k, adopts⟩ := exists_adopts_of_seen several theirs apart other
    rw [adopts]
    exact Case.noConfusion
  · rw [same] at other
    exact select_ne_reset_of_adoptable (adoptable_remain (mine.legit several) other)
  · -- The quorum cannot be followed, but together with those on the own step it lets the process
    -- establish the view.
    rw [leaves, steady] at two
    rcases select_of_mayAdvance (two.mayAdvance inRange several (by omega) leaves) with
      ⟨k, adopts⟩ | advances
    · rw [adopts]
      exact Case.noConfusion
    · rw [advances]
      exact Case.noConfusion

/-! ### The stance after a round -/

theorem own_perform_adopt (sized : s.Sized site) :
    (s.perform site (.adopt k)).state.own site =
      (s.own site).adopted site.cluster.size (s.stanceOf k) :=
  own_setOwn sized _

theorem own_perform_advance (sized : s.Sized site) :
    (s.perform site .advance).state.own site = (s.own site).advanced site.cluster.size := by
  unfold perform Stance.advanced
  cases (s.own site).phase with
  | steady => exact own_setOwn sized _
  | change => exact own_setOwn sized _

theorem own_perform_stay : (s.perform site .stay).state.own site = s.own site := rfl

theorem legit_phaseFor {n : Nat} {pair : ViewPair} (fine : pair.typeCheck n = true) :
    ({ phase := phaseFor n pair, pair := pair } : Stance).legit n = true := by
  by_cases moves : pair.current = pair.next
  · simp [Stance.legit, phaseFor, ViewPair.legitIn, ViewPair.legitChange, ViewPair.legitSteady,
      moves, fine]
  · simp [Stance.legit, phaseFor, ViewPair.legitIn, ViewPair.legitChange, moves, fine]

/-- Whatever pair that some process can hold is adopted, the stance is legitimate. -/
theorem legit_adopted {n : Nat} {x y : Stance} (legit : x.legit n = true)
    (fine : y.pair.typeCheck n = true) : (x.adopted n y).legit n = true := by
  refine legit_phaseFor ?_
  have mine := Stance.typeCheck_of_legit legit
  unfold adoptedPair
  dsimp only
  split
  · exact fine
  · simp only [ViewPair.typeCheck, Bool.and_eq_true] at mine fine ⊢
    exact ⟨⟨fine.1.1, mine.1.2⟩, fine.2⟩

/-- A legitimate stance of a process of several advances to one. -/
theorem legit_advanced {n : Nat} {x : Stance} (several : 2 ≤ n) (legit : x.legit n = true) :
    (x.advanced n).legit n = true := by
  have fine := Stance.typeCheck_of_legit legit
  simp only [ViewPair.typeCheck, Bool.and_eq_true, Bool.not_eq_true'] at fine
  unfold Stance.advanced
  split
  · cases current : x.pair.current with
    | tee =>
        simp [Stance.legit, ViewPair.legitIn, ViewPair.legitChange, ViewPair.typeCheck, current,
          View.successor, View.initial, View.isTee, View.inRange, Nat.zero_lt_of_lt several]
    | id u =>
        have inRange : u < n := by simpa [current, View.inRange] using fine.1.2
        have next : (u + 1) % n < n := Nat.mod_lt _ (Nat.zero_lt_of_lt inRange)
        simp [Stance.legit, ViewPair.legitIn, ViewPair.legitChange, ViewPair.typeCheck, current,
          View.successor, View.isTee, View.inRange, inRange, next, ne_successor several inRange,
          Nat.max_eq_left (Nat.one_le_of_lt inRange)]
  · simp [Stance.legit, ViewPair.legitIn, ViewPair.legitSteady, ViewPair.steady,
      ViewPair.typeCheck, fine]

theorem legit_resetAll (sized : s.Sized site) :
    (s.resetAll.state.own site).legit site.cluster.size = true := by
  have positive : 0 < site.cluster.size := Nat.zero_lt_of_lt sized.member
  rw [own_resetAll sized]
  simp [Stance.legit, Stance.reset, ViewPair.legitIn, ViewPair.legitSteady, ViewPair.isReset,
    ViewPair.typeCheck, ViewPair.reset, View.initial, View.isTee, View.inRange, positive]

/-- Among several, a process with a legitimate stance has one after every round. -/
theorem legit_own_round (sized : s.Sized site) (several : 2 ≤ site.cluster.size)
    (legit : (s.own site).legit site.cluster.size = true) (answers : Answers) :
    ((s.round site answers).state.own site).legit site.cluster.size = true := by
  refine round_cases (P := fun outcome => (outcome.state.own site).legit site.cluster.size = true)
    (legit_resetAll sized.sanitizePeers) fun goesOn _ => ?_
  have tidied : ((s.sanitizePeers site).own site).legit site.cluster.size = true := by
    rw [own_sanitizePeers]
    exact legit
  rcases select_cases site (s.sanitizePeers site) with
    ⟨k, selected⟩ | selected | selected | selected
  · obtain ⟨other, inRange⟩ := of_select_eq_adopt selected
    rw [selected, own_perform_adopt sized.sanitizePeers]
    exact legit_adopted tidied (typeCheck_sanitizePeers sized other inRange)
  · rw [selected, own_perform_advance sized.sanitizePeers]
    exact legit_advanced several tidied
  · rw [selected]
    exact tidied
  · contradiction

/-- If no process is expected to misbehave, the own support is enough to stay. -/
theorem select_ne_reset_of_no_faults (member : site.me < site.cluster.size)
    (noFaults : site.cluster.faults = 0)
    (legit : (s.own site).legit site.cluster.size = true) : s.select site ≠ .reset := by
  refine select_ne_reset_of_adoptable (adoptable_remain legit ?_)
  rw [Cluster.adoptQuorum, noFaults]
  exact List.countP_pos_iff.mpr ⟨site.me, List.mem_range.mpr member, by simp [own]⟩

/-- All see the same processes on a step and on the one after it.  A process on the first one stays
there or goes to the second one, and surely so if an adopting quorum is there. -/
theorem SeesTwo.own_after_first (two : s.SeesTwo site (s.own site) y) (sized : s.Sized site)
    (several : 2 ≤ site.cluster.size) (large : 6 * site.cluster.faults + 1 ≤ site.cluster.size)
    (mine : (s.own site).IsStep site.cluster.size)
    (next : y = (s.own site).advanced site.cluster.size) :
    ((s.perform site (s.select site)).state.own site = s.own site ∨
      (s.perform site (s.select site)).state.own site = y) ∧
    (site.cluster.adoptQuorum ≤ s.seen site y →
      (s.perform site (s.select site)).state.own site = y) := by
  have theirs : y.IsStep site.cluster.size := next ▸ mine.advanced
  have adopts {k : NodeId} (selected : s.select site = .adopt k) :
      (s.perform site (s.select site)).state.own site = y := by
    obtain ⟨apart, -⟩ := of_adopts selected
    rw [(two.held_of_adopts selected).1] at apart
    rw [selected, own_perform_adopt sized, (two.held_of_adopts selected).1]
    exact mine.adopted_eq several (.inl next) theirs apart
  have advances (selected : s.select site = .advance) :
      (s.perform site (s.select site)).state.own site = y := by
    rw [selected, own_perform_advance sized, next]
  have either : (s.perform site (s.select site)).state.own site = s.own site ∨
      (s.perform site (s.select site)).state.own site = y := by
    rcases select_cases site s with ⟨k, selected⟩ | selected | selected | selected
    · exact .inr (adopts selected)
    · exact .inr (advances selected)
    · left
      rw [selected, own_perform_stay]
    · exact absurd selected (two.select_ne_reset several large mine theirs)
  refine ⟨either, fun quorum => ?_⟩
  rcases mine.apart_or theirs several with apart | same | ⟨u, inRange, leaves, steady⟩
  · obtain ⟨k, selected⟩ := exists_adopts_of_seen several theirs apart quorum
    exact adopts selected
  · rcases either with stays | goes
    · exact stays.trans same.symm
    · exact goes
  · rw [leaves, steady] at two
    rcases select_of_mayAdvance (two.mayAdvance inRange several (by omega) leaves) with
      ⟨k, selected⟩ | selected
    · exact adopts selected
    · exact advances selected

/-- A process on the second of two steps in a row goes back if an adopting quorum is on the first
one; otherwise it stays or advances. -/
theorem SeesTwo.own_after_second (two : s.SeesTwo site (s.own site) x) (sized : s.Sized site)
    (several : 2 ≤ site.cluster.size) (large : 6 * site.cluster.faults + 1 ≤ site.cluster.size)
    (theirs : x.IsStep site.cluster.size)
    (next : s.own site = x.advanced site.cluster.size) :
    (site.cluster.adoptQuorum ≤ s.seen site x →
      (s.perform site (s.select site)).state.own site = x) ∧
    (s.seen site x < site.cluster.adoptQuorum →
      (s.perform site (s.select site)).state.own site = s.own site ∨
      (s.perform site (s.select site)).state.own site =
        (s.own site).advanced site.cluster.size) := by
  have mine : (s.own site).IsStep site.cluster.size := next ▸ theirs.advanced
  have apart : (s.own site).Apart x := next ▸ theirs.apart_advanced several
  constructor
  · intro quorum
    obtain ⟨k, selected⟩ := exists_adopts_of_seen several theirs apart quorum
    rw [selected, own_perform_adopt sized, (two.held_of_adopts selected).1]
    exact mine.adopted_eq several (.inr next) theirs apart
  · intro few
    rcases select_cases site s with ⟨k, selected⟩ | selected | selected | selected
    · exact absurd (two.held_of_adopts selected).2 (Nat.not_le.mpr few)
    · right
      rw [selected, own_perform_advance sized]
    · left
      rw [selected, own_perform_stay]
    · exact absurd selected (two.select_ne_reset several large mine theirs)

end Establishment

end QuorumList
