import Mathlib.Data.List.Nodup
import QuorumList.Proofs.Legality
import QuorumList.Proofs.LockStep
import QuorumList.Proofs.Restart

/-!
Lures.

A process has its record dropped when it establishes a view and comes from no view.  How does a
process that was in a view get into none?  By starting over, of course; but a process that adopts a
pair, and would stay in its own view by that, takes the pair as it is.  So a disturber can lure a
process that is about to leave its view: it shows the way from no view to that same view, and those
that are still steady there support it.  The process takes this way, establishes the view in which
it was before, and has its record dropped.

There is no other way than these two.  And wherever a disturber is expected, one is enough for a
lure, so that only a cluster laid out for no faults is safe from it.
-/
namespace QuorumList

/-- On the way from no view to a view. -/
def Stance.bait (v : NodeId) : Stance :=
  { phase := .change, pair := { current := .tee, next := .id v } }

namespace Establishment

variable {site : Site} {s : Establishment} {disturber : NodeId → Bool} {v k : NodeId}
  {first second : Stance}

/-! ### Staying in a view -/

/-- The process adopts from a disturber the way from no view to the view that the process is in. -/
def Lured (site : Site) (disturber : NodeId → Bool) (s : Establishment) : Prop :=
  ∃ j w, disturber j = true ∧ (s.sanitizePeers site).select site = .adopt j ∧
    (s.sanitizePeers site).pairOf j = { current := .tee, next := .id w } ∧
    (s.own site).pair.current = .id w

/-- The process is in a view, and sees all but the disturbers in pairs that some process in a view
can hold. -/
structure InView (site : Site) (disturber : NodeId → Bool) (s : Establishment) : Prop where
  own : ¬ s.Viewless site
  others : ∀ j, j < site.cluster.size → j ≠ site.me → disturber j = false →
    (s.pairOf j).typeCheck site.cluster.size = true ∧ (s.pairOf j).current ≠ .tee

/-- A process that is in a view does not have its record dropped. -/
theorem replicaFlush_not_mem_round (inView : ¬ s.Viewless site) (answers : Answers) :
    .replicaFlush ∉ (s.round site answers).directives := by
  refine round_cases (P := fun outcome => .replicaFlush ∉ outcome.directives) ?_ fun goesOn _ => ?_
  · simp [resetAll]
  · have current : ((s.sanitizePeers site).own site).pair.current.isTee = false := by
      rw [own_sanitizePeers]
      cases view : (s.own site).pair.current with
      | tee => exact absurd view inView
      | id u => rfl
    cases selected : (s.sanitizePeers site).select site with
    | adopt j => exact List.not_mem_nil
    | advance =>
        unfold perform
        dsimp only
        split
        · exact List.not_mem_nil
        · simp [establish, current]
    | stay => exact List.not_mem_nil
    | reset => exact absurd selected goesOn

/-- A process in a view stays in one, or starts over, or is lured. -/
theorem InView.round (inView : s.InView site disturber) (sized : s.Sized site) (answers : Answers) :
    .reset ∈ (s.round site answers).events ∨ s.Lured site disturber ∨
      (s.round site answers).state.InView site disturber := by
  have tidied := sized.sanitizePeers
  have own := own_sanitizePeers site s
  refine round_cases (P := fun outcome => .reset ∈ outcome.events ∨ s.Lured site disturber ∨
    outcome.state.InView site disturber) (.inl (by simp [resetAll])) fun goesOn legit => .inr ?_
  have others : ∀ j, j < site.cluster.size → j ≠ site.me → disturber j = false →
      ((s.sanitizePeers site).pairOf j).typeCheck site.cluster.size = true ∧
        ((s.sanitizePeers site).pairOf j).current ≠ .tee := by
    intro j inRange other faithful
    have seen := inView.others j inRange other faithful
    rw [← pair_stanceOf, stanceOf_sanitizePeers seen.1]
    exact seen
  suffices s.Lured site disturber ∨ ¬ ((s.sanitizePeers site).perform site
      ((s.sanitizePeers site).select site)).state.Viewless site by
    refine this.imp_right fun inSome => ⟨inSome, fun j inRange other faithful => ?_⟩
    rw [← pair_stanceOf, stanceOf_perform_of_ne other goesOn]
    exact others j inRange other faithful
  rcases select_cases site (s.sanitizePeers site) with
    ⟨j, selected⟩ | selected | selected | selected
  · -- The process keeps its view, unless the target leads there; then it takes the view of the
    -- target, which is none only if the target is a disturber.
    obtain ⟨other, inRange⟩ := of_select_eq_adopt selected
    rw [selected, Viewless, own_perform_adopt tidied, own]
    unfold Stance.adopted adoptedPair
    dsimp only [pair_stanceOf]
    split
    · next leads =>
        by_cases viewless : ((s.sanitizePeers site).pairOf j).current = .tee
        · left
          obtain ⟨w, view⟩ : ∃ w, (s.own site).pair.current = .id w := by
            cases view : (s.own site).pair.current with
            | tee => exact absurd view inView.own
            | id w => exact ⟨w, rfl⟩
          refine ⟨j, w, ?_, selected, ?_, view⟩
          · cases faithful : disturber j with
            | true => rfl
            | false => exact absurd viewless (others j inRange other faithful).2
          · rw [← viewless, ← view, leads]
        · exact .inr viewless
    · exact .inr inView.own
  · right
    rw [selected, Viewless, own_perform_advance tidied, own]
    unfold Stance.advanced
    split
    · exact inView.own
    · exact next_ne_tee_of_typeCheck (Stance.typeCheck_of_legit legit)
  · right
    rw [selected, Viewless, own_perform_stay, own]
    exact inView.own
  · contradiction

theorem InView.receive (inView : s.InView site disturber) (sized : s.Sized site) {sender : NodeId}
    {a : Announcement} (honest : disturber sender = false → a.stance.pair.current ≠ .tee) :
    (s.receive site sender a).InView site disturber := by
  constructor
  · rw [Viewless, own_receive]
    exact inView.own
  · intro j inRange other faithful
    have before := inView.others j inRange other faithful
    by_cases isSender : j = sender
    · subst isSender
      rcases stanceOf_receive_eq_or sized j a with ⟨unchanged, -⟩ | ⟨valid, shown, -⟩
      · rwa [← pair_stanceOf, unchanged]
      · rw [← pair_stanceOf, shown]
        exact ⟨Stance.typeCheck_of_legit valid, honest faithful⟩
    · rwa [← pair_stanceOf, (stanceOf_receive_of_ne isSender a).1]

/-! ### A lure -/

/-- Tables without pairs that nobody can hold are tidy. -/
theorem sanitizePeers_eq_self (sized : s.Sized site)
    (fine : ∀ k, k < site.cluster.size → (s.pairOf k).typeCheck site.cluster.size = true) :
    s.sanitizePeers site = s := by
  have pairs : (s.sanitizePeers site).pairs = s.pairs := by
    refine List.ext_getElem? fun k => ?_
    rw [getElem?_pairs_sanitizePeers]
    by_cases inRange : k < site.cluster.size
    · simp [fine k inRange]
    · simp [List.getElem?_eq_none (sized.pairs ▸ Nat.le_of_not_lt inRange)]
  have phases : (s.sanitizePeers site).phases = s.phases := by
    refine List.ext_getElem? fun k => ?_
    rw [getElem?_phases_sanitizePeers]
    by_cases inRange : k < site.cluster.size
    · simp [fine k inRange]
    · simp [List.getElem?_eq_none (sized.phases ▸ Nat.le_of_not_lt inRange)]
  calc s.sanitizePeers site
      = { s with
          pairs := (s.sanitizePeers site).pairs
          phases := (s.sanitizePeers site).phases } := rfl
    _ = s := by rw [pairs, phases]

/-- The first process is followed before all others. -/
theorem select_eq_adopt_first (sized : s.Sized site) (other : site.me ≠ 0)
    (apart : (s.own site).Apart (s.stanceOf 0))
    (adoptable : s.adoptable site 0 (s.own site).phase .follow = true) :
    s.select site = .adopt 0 := by
  obtain ⟨n, size⟩ : ∃ n, site.cluster.size = n + 1 :=
    Nat.exists_eq_succ_of_ne_zero (Nat.ne_zero_of_lt sized.member)
  have followed : s.followed site = some 0 := by
    rw [followed, Site.others, Cluster.nodes, size, List.range_succ_eq_map, List.filter_cons_of_pos
      (by simpa using Ne.symm other)]
    exact List.find?_cons_of_pos (by simp [apart, adoptable])
  rw [select_eq, followed]

/-- If every process supports it in one way or the other, a process can establish a view. -/
theorem establishable_of_supported (enough : 4 * site.cluster.faults < site.cluster.size)
    {phase : Phase} {mode : Mode} (supported : ∀ j, j < site.cluster.size →
      s.sameStance site site.me phase j = true ∨ s.inTransit site site.me phase mode j = true) :
    s.establishable site phase mode = true :=
  decide_eq_true (Nat.le_trans enough (size_le_countP_add supported))

theorem countP_eq_le_one (c : Cluster) (k : NodeId) :
    c.nodes.countP (fun j => decide (j = k)) ≤ 1 :=
  List.nodup_iff_count_le_one.mp List.nodup_range k

/-- The first two processes stand in given stances, and the others are steady in a view. -/
def posed (v : NodeId) (first second : Stance) (j : NodeId) : Stance :=
  if j = 0 then first else if j = 1 then second else .steadyIn v

theorem legit_posed {n : Nat} (inRange : v < n) (legitFirst : first.legit n = true)
    (legitSecond : second.legit n = true) (j : NodeId) :
    (posed v first second j).legit n = true := by
  unfold posed
  split
  · exact legitFirst
  · split
    · exact legitSecond
    · exact Stance.legit_steadyIn inRange

theorem legit_bait {n : Nat} (inRange : v < n) : (Stance.bait v).legit n = true := by
  simp [Stance.legit, Stance.bait, ViewPair.legitIn, ViewPair.legitChange, ViewPair.typeCheck,
    View.isTee, View.inRange, inRange]

/-- The second process knows how the others stand: the first one in some stance, and all others
steady in a view. -/
structure Posed (site : Site) (v : NodeId) (first second : Stance) (s : Establishment) : Prop where
  sized : s.Sized site
  isSecond : site.me = 1
  inRange : v < site.cluster.size
  enough : 5 * site.cluster.faults < site.cluster.size
  legitFirst : first.legit site.cluster.size = true
  legitSecond : second.legit site.cluster.size = true
  knows : s.Knows site (posed v first second)

namespace Posed

variable (posed : s.Posed site v first second)

include posed

theorem own : s.own site = second := by
  have seen : s.own site = Establishment.posed v first second site.me :=
    posed.knows site.me posed.sized.member
  rw [seen, posed.isSecond]
  rfl

theorem first_eq : s.stanceOf 0 = first :=
  posed.knows 0 (Nat.zero_lt_of_lt posed.sized.member)

/-- A round only performs what is selected, and the others keep their stances. -/
theorem round {action : Case} (selected : s.select site = action) (goesOn : action ≠ .reset)
    (legit : ((s.perform site action).state.own site).legit site.cluster.size = true) :
    s.round site .unavailable = s.perform site action ∧
      .reset ∉ (s.round site .unavailable).events ∧
      (s.round site .unavailable).state.Posed site v first
        ((s.perform site action).state.own site) := by
  have tidy : s.sanitizePeers site = s := sanitizePeers_eq_self posed.sized fun k inRange => by
    rw [← pair_stanceOf, posed.knows k inRange]
    exact Stance.typeCheck_of_legit
      (legit_posed posed.inRange posed.legitFirst posed.legitSecond k)
  have performs : s.round site .unavailable = s.perform site action := by
    rw [round_eq_perform (posed.own ▸ posed.legitSecond) rfl, tidy, selected]
  rw [performs]
  refine ⟨rfl, reset_not_mem_events_perform goesOn, posed.sized.perform action, posed.isSecond,
    posed.inRange, posed.enough, posed.legitFirst, legit, fun j inRange => ?_⟩
  by_cases itself : j = site.me
  · rw [itself, Establishment.posed, posed.isSecond]
    simp [Establishment.own, posed.isSecond]
  · rw [stanceOf_perform_of_ne itself goesOn, posed.knows j inRange]
    rw [posed.isSecond] at itself
    simp [Establishment.posed, itself]

/-- The first process shows itself in another stance. -/
theorem receive {a : Announcement} (valid : a.valid site.cluster.size = true) :
    (s.receive site 0 a).Posed site v a.stance second := by
  have first : 0 < site.cluster.size := Nat.zero_lt_of_lt posed.sized.member
  have peer : site.isPeer 0 = true := by simp [Site.isPeer, posed.isSecond, first]
  refine ⟨posed.sized.receive 0 a, posed.isSecond, posed.inRange, posed.enough, valid,
    posed.legitSecond, fun j inRange => ?_⟩
  by_cases isFirst : j = 0
  · rw [isFirst, (stanceOf_receive posed.sized peer valid).1]
    rfl
  · rw [(stanceOf_receive_of_ne isFirst a).1, posed.knows j inRange]
    simp [Establishment.posed, isFirst]

end Posed

/-- Where all are steady in its view, a process that is asked for a view change advances. -/
theorem Posed.select_wanted (posed : s.Posed site v (.steadyIn v) (.steadyIn v))
    (wanted : s.changeWanted = true) : s.select site = .advance := by
  have steady : ∀ j, j < site.cluster.size → s.stanceOf j = .steadyIn v := by
    intro j inRange
    rw [posed.knows j inRange, Establishment.posed]
    split
    · rfl
    · split <;> rfl
  have own := posed.own
  have enough : 4 * site.cluster.faults < site.cluster.size := by
    have := posed.enough
    omega
  have establishable : s.establishable site .steady .follow = true := by
    refine establishable_of_supported enough fun j inRange => .inl ?_
    have seen := steady j inRange
    have same : s.pairOf j = s.pairOf site.me := congrArg Stance.pair (seen.trans own.symm)
    have phase : s.phaseOf j = .steady := congrArg Stance.phase seen
    simp [sameStance, samePair, same, phase, not_stale_of_steadyIn posed.inRange seen]
  have advances : s.mayAdvance site = true := by
    simp [mayAdvance, own, Stance.steadyIn, wanted, establishable]
  rcases select_of_mayAdvance advances with ⟨k, adopts⟩ | advance
  · have apart := (of_adopts adopts).1
    rw [own, steady k (of_select_eq_adopt adopts).2] at apart
    exact absurd rfl apart.pair_ne
  · exact advance

/-- A process that leaves the view follows the first one back to it. -/
theorem Posed.select_leaving (posed : s.Posed site v (.bait v) (.leaving site.cluster.size v))
    (faults : 0 < site.cluster.faults) : s.select site = .adopt 0 := by
  have own := posed.own
  have first := posed.first_eq
  have several : 2 ≤ site.cluster.size := by
    have := posed.enough
    omega
  have moves := ne_successor several posed.inRange
  refine select_eq_adopt_first posed.sized (by simp [posed.isSecond]) ?_ (decide_eq_true ?_)
  · rw [own, first]
    simp [Stance.Apart, Stance.leaving, Stance.bait, moves]
  · -- The first process supports itself, and those that are steady in the view support it too; only
    -- the second process does not.
    have supports : ∀ j, j < site.cluster.size →
        (s.sameStance site 0 (s.own site).phase j ||
          s.inTransit site 0 (s.own site).phase .follow j) = true ∨ decide (j = 1) = true := by
      intro j inRange
      have seen := posed.knows j inRange
      have fresh : s.stale site j = false := by
        rw [stale, seen, legit_posed posed.inRange posed.legitFirst posed.legitSecond]
        rfl
      have firstPair : s.pairOf 0 = (Stance.bait v).pair := congrArg Stance.pair first
      have pair : s.pairOf j = _ := congrArg Stance.pair seen
      have phase : s.phaseOf j = _ := congrArg Stance.phase seen
      by_cases isFirst : j = 0
      · left
        subst isFirst
        simp [sameStance, samePair, fresh, phase, own, Establishment.posed, Stance.bait,
          Stance.leaving]
      · by_cases isSecond : j = 1
        · exact .inr (decide_eq_true isSecond)
        · left
          simp [inTransit, relates, fresh, phase, pair, firstPair, isFirst, isSecond, own,
            Establishment.posed, Stance.bait, Stance.leaving, Stance.steadyIn, ViewPair.steady]
    have one := countP_eq_le_one site.cluster 1
    have few : site.cluster.adoptQuorum < site.cluster.size := by
      have := posed.enough
      rw [Cluster.adoptQuorum]
      omega
    exact Nat.le_of_lt_succ (Nat.lt_of_lt_of_le few
      (Nat.le_trans (size_le_countP_add supports) (Nat.add_le_add_left one _)))

/-- A process that has followed the first one establishes the view. -/
theorem Posed.select_lured (posed : s.Posed site v (.bait v) (.bait v)) :
    s.select site = .advance := by
  have own := posed.own
  have seen : ∀ j, j < site.cluster.size → s.stanceOf j = .bait v ∨ s.stanceOf j = .steadyIn v := by
    intro j inRange
    rw [posed.knows j inRange, Establishment.posed]
    split
    · exact .inl rfl
    · split
      · exact .inl rfl
      · exact .inr rfl
  have enough : 4 * site.cluster.faults < site.cluster.size := by
    have := posed.enough
    omega
  have mine : s.pairOf site.me = (Stance.bait v).pair := congrArg Stance.pair own
  have establishable : s.establishable site .change .follow = true := by
    refine establishable_of_supported enough fun j inRange => ?_
    rcases seen j inRange with back | there
    · left
      have fresh : s.stale site j = false := by
        rw [stale, back, posed.legitFirst]
        rfl
      have pair : s.pairOf j = _ := congrArg Stance.pair back
      have phase : s.phaseOf j = _ := congrArg Stance.phase back
      simp [sameStance, samePair, fresh, pair, phase, mine, Stance.bait]
    · right
      have pair : s.pairOf j = _ := congrArg Stance.pair there
      have phase : s.phaseOf j = _ := congrArg Stance.phase there
      simp [inTransit, relates, pair, phase, mine, not_stale_of_steadyIn posed.inRange there,
        Stance.bait, Stance.steadyIn, ViewPair.steady]
  have advances : s.mayAdvance site = true := by
    simp [mayAdvance, own, Stance.bait, establishable]
  rcases select_of_mayAdvance advances with ⟨k, adopts⟩ | advance
  · -- All are in the view or on the way to it, so nobody is followed.
    have apart := (of_adopts adopts).1
    rw [own] at apart
    rcases seen k (of_select_eq_adopt adopts).2 with back | there
    · rw [back] at apart
      exact absurd rfl apart.pair_ne
    · rw [there] at apart
      exact absurd rfl apart
  · exact advance

theorem Posed.round_wanted (posed : s.Posed site v (.steadyIn v) (.steadyIn v))
    (several : 2 ≤ site.cluster.size) (wanted : s.changeWanted = true) :
    .reset ∉ (s.round site .unavailable).events ∧
      (s.round site .unavailable).state.Posed site v (.steadyIn v)
        (.leaving site.cluster.size v) := by
  have becomes : (s.perform site .advance).state.own site = .leaving site.cluster.size v := by
    rw [own_perform_advance posed.sized, posed.own, Stance.advanced_steadyIn posed.inRange]
  obtain ⟨-, goesOn, left⟩ := posed.round (posed.select_wanted wanted) Case.noConfusion
    (becomes ▸ Stance.legit_leaving several posed.inRange)
  exact ⟨goesOn, becomes ▸ left⟩

/-- The process follows the first one out of its view. -/
theorem Posed.round_leaving (posed : s.Posed site v (.bait v) (.leaving site.cluster.size v))
    (faults : 0 < site.cluster.faults) :
    .reset ∉ (s.round site .unavailable).events ∧
      (s.round site .unavailable).state.Posed site v (.bait v) (.bait v) := by
  have inRange := posed.inRange
  have becomes : (s.perform site (.adopt 0)).state.own site = .bait v := by
    rw [own_perform_adopt posed.sized, posed.own, posed.first_eq]
    simp [Stance.adopted, adoptedPair, phaseFor, Stance.leaving, Stance.bait,
      ViewPair.legitChange, ViewPair.typeCheck, View.isTee, View.inRange, inRange]
  obtain ⟨-, goesOn, back⟩ := posed.round (posed.select_leaving faults) Case.noConfusion
    (becomes ▸ legit_bait inRange)
  exact ⟨goesOn, becomes ▸ back⟩

/-- In the next round it has its record dropped. -/
theorem Posed.replicaFlush_mem_round (posed : s.Posed site v (.bait v) (.bait v)) :
    .replicaFlush ∈ (s.round site .unavailable).directives := by
  have own := posed.own
  have arrives := own_perform_advance posed.sized
  rw [own] at arrives
  have performs := (posed.round posed.select_lured Case.noConfusion
    (arrives ▸ Stance.legit_steadyIn posed.inRange)).1
  rw [performs]
  simp [perform, establish, own, Stance.bait, View.isTee]

end Establishment

namespace Council

open Establishment

variable {c : Cluster} {disturber : NodeId → Bool} {v k : NodeId} {e start : Council}
  {action : Action} {actions : List Action} {s : Establishment}
  {P Q : NodeId → Establishment → Answers → Prop}

/-! ### Runs with disturbers -/

/-- Agreement asks no process for a flush, and nobody forges its letters, unless the process is a
disturber.  Anybody may be asked for a view change. -/
def Action.Admits (disturber : NodeId → Bool) : Action → Prop
  | .round k answers => disturber k = true ∨ answers.needFlush = false
  | .forge l => disturber l.sender = true
  | _ => True

/-- In a run, some process runs a round in a state in which a property holds. -/
def Sometime (c : Cluster) (P : NodeId → Establishment → Answers → Prop) (e : Council) :
    List Action → Prop
  | [] => False
  | action :: rest =>
      (∃ k answers s, action = .round k answers ∧ e.processes[k]? = some s ∧ P k s answers) ∨
        (e.act c action).Sometime c P rest

theorem Sometime.imp (implies : ∀ k s answers, P k s answers → Q k s answers)
    (sometime : e.Sometime c P actions) : e.Sometime c Q actions := by
  induction actions generalizing e with
  | nil => exact sometime
  | cons action rest ih =>
      rcases sometime with ⟨k, answers, s, isRound, found, holds⟩ | later
      · exact .inl ⟨k, answers, s, isRound, found, implies k s answers holds⟩
      · exact .inr (ih later)

/-- A process that is no disturber starts over in this round. -/
def StartsOver (c : Cluster) (disturber : NodeId → Bool) (k : NodeId) (s : Establishment)
    (answers : Answers) : Prop :=
  disturber k = false ∧ .reset ∈ (s.round (c.siteOf k) answers).events

/-- A process that is no disturber starts over in this round, or is lured. -/
def Departs (c : Cluster) (disturber : NodeId → Bool) (k : NodeId) (s : Establishment)
    (answers : Answers) : Prop :=
  StartsOver c disturber k s answers ∨ disturber k = false ∧ s.Lured (c.siteOf k) disturber

/-- All but the disturbers are in views, and announce that they are. -/
structure InViews (c : Cluster) (disturber : NodeId → Bool) (e : Council) : Prop where
  sized : e.Sized c
  processes : e.All fun k s => disturber k = false → s.InView (c.siteOf k) disturber
  letters : ∀ l ∈ e.inFlight, disturber l.sender = false → disturber l.receiver = false →
    l.content.stance.pair.current ≠ .tee

/-- After an action all but the disturbers are still in views, unless one of them departs in it. -/
theorem InViews.act (inViews : e.InViews c disturber) (admits : action.Admits disturber) :
    (∃ k answers s, action = .round k answers ∧ e.processes[k]? = some s ∧
        Departs c disturber k s answers) ∨
      (e.act c action).InViews c disturber := by
  by_cases none : ∃ k answers s, action = .round k answers ∧ e.processes[k]? = some s ∧
      Departs c disturber k s answers
  · exact .inl none
  refine .inr (act_cases action inViews ?_ ?_ ?_)
  · rintro k s answers rfl found
    have sized := inViews.sized.tables k s found
    have stays (faithful : disturber k = false) :
        (s.round (c.siteOf k) answers).state.InView (c.siteOf k) disturber := by
      rcases (inViews.processes k s found faithful).round sized answers with resets | lured | inView
      · exact absurd ⟨k, answers, s, rfl, found, .inl ⟨faithful, resets⟩⟩ none
      · exact absurd ⟨k, answers, s, rfl, found, .inr ⟨faithful, lured⟩⟩ none
      · exact inView
    refine ⟨inViews.sized.attend found answers, inViews.processes.settle stays, ?_⟩
    intro l sent bySender byReceiver
    rcases List.mem_append.mp sent with before | now
    · exact inViews.letters l before bySender byReceiver
    · obtain ⟨rfl, -, -, written⟩ := mem_lettersOf.mp now
      rw [written]
      exact (stays bySender).own
  · rintro k s - found
    have before := inViews.processes k s found
    exact ⟨inViews.sized.wish found, inViews.processes.settle fun faithful =>
      ⟨(before faithful).own, (before faithful).others⟩, inViews.letters⟩
  · intro l remaining origin kept
    have honest (byReceiver : disturber l.receiver = false)
        (bySender : disturber l.sender = false) : l.content.stance.pair.current ≠ .tee := by
      rcases origin with sent | rfl
      · exact inViews.letters l sent bySender byReceiver
      · have forged : disturber l.sender = true := admits
        rw [bySender] at forged
        contradiction
    have handed := inViews.sized.hand l
    refine ⟨⟨handed.length, handed.tables⟩, ?_, fun m member => inViews.letters m (kept m member)⟩
    refine inViews.processes.hand fun s found before faithful => ?_
    exact (before faithful).receive (inViews.sized.tables _ s found) (honest faithful)

/-- As long as nobody but the disturbers departs, the others are in views. -/
theorem InViews.run (inViews : e.InViews c disturber)
    (admitted : ∀ action ∈ actions, action.Admits disturber) :
    e.Sometime c (Departs c disturber) actions ∨ (e.run c actions).InViews c disturber := by
  induction actions generalizing e with
  | nil => exact .inr inViews
  | cons action rest ih =>
      obtain ⟨admits, later⟩ := List.forall_mem_cons.mp admitted
      rcases inViews.act admits with departs | still
      · exact .inl (.inl departs)
      · exact (ih still later).imp_left .inr

theorem Settled.inViews (settled : start.Settled c disturber v) (inRange : v < c.size) :
    start.InViews c disturber := by
  have fine := Stance.typeCheck_of_legit (Stance.legit_steadyIn inRange)
  refine ⟨settled.sized, fun k s found faithful => ?_, fun l sent bySender byReceiver => ?_⟩
  · have steadfast := settled.steadfast k s found faithful
    refine ⟨?_, fun j listed _ honest => ?_⟩
    · rw [Viewless, steadfast.own]
      exact View.noConfusion
    · rw [← pair_stanceOf, steadfast.sees j listed honest]
      exact ⟨fine, View.noConfusion⟩
  · rw [settled.letters l sent bySender byReceiver]
    exact View.noConfusion

/-- In the runs that begin with all processes steady in a view and with as few disturbers as are
expected, nobody else has its record dropped before somebody else has started over. -/
def DropsAfterReset (c : Cluster) : Prop :=
  ∀ (disturber : NodeId → Bool) (v : NodeId) (start : Council) (actions : List Action),
    v < c.size → c.nodes.countP disturber ≤ c.faults →
    start.Settled c disturber v → (∀ action ∈ actions, action.Admits disturber) →
      ¬ start.Sometime c (StartsOver c disturber) actions →
        (start.run c actions).All fun k s => disturber k = false → ∀ answers : Answers,
          answers.needFlush = false → .replicaFlush ∉ (s.round (c.siteOf k) answers).directives

/-! ### The run of a lure -/

theorem found_act_wish (found : e.processes[k]? = some s) :
    (e.act c (.wish k)).processes[k]? = some s.wantChange.state := by
  simp only [act, found]
  exact List.getElem?_set_self (List.getElem?_eq_some_iff.mp found).1

theorem found_act_round (found : e.processes[k]? = some s) (answers : Answers) :
    (e.act c (.round k answers)).processes[k]? = some (s.round (c.siteOf k) answers).state := by
  simp only [act, found]
  exact List.getElem?_set_self (List.getElem?_eq_some_iff.mp found).1

theorem found_act_forge {l : Letter} (found : e.processes[l.receiver]? = some s) :
    (e.act c (.forge l)).processes[l.receiver]? =
      some (s.receive (c.siteOf l.receiver) l.sender l.content) := by
  simp [act, hand, found]

/-- The second process is asked for a view change and leaves its view; then the first one shows it
the way from no view to that view, and it takes that way. -/
def lureRun (v : NodeId) : List Action :=
  [ .wish 1, .round 1 .unavailable, .forge ⟨0, 1, { stance := .bait v, echo := .bait v }⟩,
    .round 1 .unavailable ]

theorem posed_gathered (large : 5 * c.faults < c.size) (inRange : v < c.size)
    (found : (gathered c v).processes[1]? = some s) :
    s.wantChange.state.Posed (c.siteOf 1) v (.steadyIn v) (.steadyIn v) := by
  obtain ⟨-, sized, -, known⟩ := processes_gathered found
  refine ⟨⟨sized.member, sized.pairs, sized.phases, sized.echoes⟩, rfl, inRange, large,
    Stance.legit_steadyIn inRange, Stance.legit_steadyIn inRange, fun j listed => ?_⟩
  refine (known j listed).1.trans ?_
  unfold posed
  split
  · rfl
  · split <;> rfl

/-- The lure works in every cluster of more than `5F` processes in which a fault is expected. -/
theorem lure_succeeds (large : 5 * c.faults < c.size) (faults : 0 < c.faults)
    (inRange : v < c.size) :
    ¬ (gathered c v).Sometime c (StartsOver c fun k => k = 0) (lureRun v) ∧
      ∃ s, ((gathered c v).run c (lureRun v)).processes[1]? = some s ∧
        .replicaFlush ∈ (s.round (c.siteOf 1) .unavailable).directives := by
  have several : 2 ≤ c.size := by omega
  obtain ⟨s, found⟩ := (settled_gathered c (fun k => k = 0) v).sized.found (k := 1) several
  have wishing := found_act_wish (c := c) found
  obtain ⟨goesOn, left⟩ := (posed_gathered large inRange found).round_wanted several rfl
  have leaving := found_act_round (c := c) wishing .unavailable
  have hearing := found_act_forge (c := c)
    (l := ⟨0, 1, { stance := .bait v, echo := .bait v }⟩) leaving
  have heard := left.receive (a := { stance := .bait v, echo := .bait v }) (legit_bait inRange)
  obtain ⟨goesOnAgain, back⟩ := heard.round_leaving faults
  refine ⟨?_, _, found_act_round (c := c) hearing .unavailable, back.replicaFlush_mem_round⟩
  rintro (⟨_, _, _, isRound, -⟩ | ⟨_, _, t, isRound, at_, -, resets⟩ | ⟨_, _, _, isRound, -⟩ |
    ⟨_, _, t, isRound, at_, -, resets⟩ | none)
  · cases isRound
  · cases isRound
    obtain rfl := Option.some.inj (wishing.symm.trans at_)
    exact goesOn resets
  · cases isRound
  · cases isRound
    obtain rfl := Option.some.inj (hearing.symm.trans at_)
    exact goesOnAgain resets
  · exact none

theorem not_dropsAfterReset (large : 5 * c.faults < c.size) (faults : 0 < c.faults) :
    ¬ DropsAfterReset c := by
  intro drops
  have inRange : 0 < c.size := Nat.zero_lt_of_lt large
  obtain ⟨noReset, s, found, drop⟩ := lure_succeeds large faults inRange
  refine drops (fun k => k = 0) 0 _ _ inRange (Nat.le_trans (countP_eq_le_one c 0) faults)
    (settled_gathered c _ 0) ?_ noReset 1 s found (by decide) .unavailable rfl drop
  simp [lureRun, Action.Admits, Answers.unavailable]

/-- Without disturbers nobody is lured. -/
theorem StartsOver.of_departs {answers : Answers} (none : c.nodes.countP disturber = 0)
    (departs : Departs c disturber k s answers) : StartsOver c disturber k s answers := by
  rcases departs with startsOver | ⟨-, j, -, disturbs, adopts, -⟩
  · exact startsOver
  · have listed : j ∈ c.nodes := List.mem_range.mpr (of_select_eq_adopt adopts).2
    exact absurd disturbs (List.countP_eq_zero.mp none j listed)

/-- Processes begin in a view and know each other; they may be asked for view changes at any time,
and letters arrive in any order.  Then, whatever the disturbers do, a process that is none of them
has its record dropped only after one of these has started over or has been lured.  In a cluster of
more than `5F` processes starting over is the only reason just if no faults are expected. -/
theorem drops_only_after_reset_or_lure (large : 5 * c.faults < c.size) :
    (∀ (disturber : NodeId → Bool) (v : NodeId) (start : Council) (actions : List Action),
      v < c.size → start.Settled c disturber v → (∀ action ∈ actions, action.Admits disturber) →
        (start.run c actions).All fun k s => disturber k = false → ∀ answers : Answers,
          .replicaFlush ∈ (s.round (c.siteOf k) answers).directives →
            start.Sometime c (Departs c disturber) actions) ∧
      (DropsAfterReset c ↔ c.faults = 0) := by
  have drops : ∀ (disturber : NodeId → Bool) (v : NodeId) (start : Council)
      (actions : List Action), v < c.size → start.Settled c disturber v →
      (∀ action ∈ actions, action.Admits disturber) →
        (start.run c actions).All fun k s => disturber k = false → ∀ answers : Answers,
          .replicaFlush ∈ (s.round (c.siteOf k) answers).directives →
            start.Sometime c (Departs c disturber) actions := by
    intro disturber v start actions inRange settled admitted k s found faithful answers drop
    rcases (settled.inViews inRange).run admitted with departs | inViews
    · exact departs
    · have inView := inViews.processes k s found faithful
      exact absurd drop (replicaFlush_not_mem_round inView.own answers)
  refine ⟨drops, fun safe => ?_, fun noFaults => ?_⟩
  · exact Nat.eq_zero_of_not_pos fun faults => not_dropsAfterReset large faults safe
  · intro disturber v start actions inRange few settled admitted noReset k s found faithful answers
      _ drop
    have none : c.nodes.countP disturber = 0 := Nat.le_zero.mp (noFaults ▸ few)
    have departs := drops disturber v start actions inRange settled admitted k s found faithful
      answers drop
    exact noReset (departs.imp fun _ _ _ => StartsOver.of_departs none)

/-- In the run of the lure somebody departs. -/
theorem lured_process_departs :
    (gathered (.new 6 1) 3).Sometime (.new 6 1) (Departs (.new 6 1) fun k => k = 0)
      (lureRun 3) := by
  obtain ⟨s, found⟩ : ∃ s, ((gathered (.new 6 1) 3).run (.new 6 1) (lureRun 3)).processes[1]? =
      some s := ⟨_, rfl⟩
  have drops := (drops_only_after_reset_or_lure (c := .new 6 1) (by decide)).1 (fun k => k = 0) 3
    _ (lureRun 3) (by decide) (settled_gathered _ _ 3)
    (by simp [lureRun, Action.Admits, Answers.unavailable])
  refine drops 1 s found (by decide) .unavailable ?_
  obtain rfl := Option.some.inj found
  decide +kernel

/-- In a cluster of six processes, one of which may be faulty, a process is lured out of the fourth
view and has its record dropped, and nobody has started over. -/
theorem lured_process_drops_record :
    ¬ DropsAfterReset (.new 6 1) ∧
      ((gathered (.new 6 1) 3).run (.new 6 1) (lureRun 3)).events = [(1, .viewChangeRequest)] ∧
      ∃ s, ((gathered (.new 6 1) 3).run (.new 6 1) (lureRun 3)).processes[1]? = some s ∧
        s.own ((Cluster.new 6 1).siteOf 1) = .bait 3 ∧
        (s.round ((Cluster.new 6 1).siteOf 1) .unavailable).directives = [.replicaFlush] := by
  refine ⟨not_dropsAfterReset (by decide) (by decide), by decide +kernel, _, rfl, ?_, ?_⟩
  · decide +kernel
  · decide +kernel

end Council

end QuorumList
