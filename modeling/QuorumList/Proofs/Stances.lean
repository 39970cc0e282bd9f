import QuorumList.Establishment.Round

/-!
What a process sees of the others.

The tables of a process hold the stance in which it last saw each process, its own at its own place,
and what each process last echoed.  A transition changes the own stance or forgets everything; only
an announcement changes what is seen of another process, and only of its sender.

In both phases a process follows the first of the others that is on another way and has an adopting
quorum.  If there is none it advances, stays or starts over.
-/
namespace QuorumList

/-- The stance of a process that is steady in a view. -/
def Stance.steadyIn (v : NodeId) : Stance :=
  { phase := .steady, pair := .steady (.id v) }

/-- The stance of a process on its way from a view to the next one, around the ring. -/
def Stance.leaving (n : Nat) (v : NodeId) : Stance :=
  { phase := .change, pair := { current := .id v, next := .id ((v + 1) % n) } }

theorem Stance.typeCheck_of_legit {n : Nat} {x : Stance} (legit : x.legit n = true) :
    x.pair.typeCheck n = true := by
  unfold Stance.legit ViewPair.legitIn ViewPair.legitSteady ViewPair.legitChange at legit
  split at legit
  · exact (Bool.and_eq_true_iff.mp legit).2
  · exact (Bool.and_eq_true_iff.mp legit).2

theorem Stance.legit_steadyIn {n : Nat} {v : NodeId} (inRange : v < n) :
    (Stance.steadyIn v).legit n = true := by
  simp [Stance.legit, Stance.steadyIn, ViewPair.legitIn, ViewPair.legitSteady, ViewPair.steady,
    ViewPair.typeCheck, View.isTee, View.inRange, inRange]

/-- In a ring of several processes nobody is its own successor. -/
theorem ne_successor {n v : Nat} (several : 2 ≤ n) (inRange : v < n) : v ≠ (v + 1) % n := by
  rcases Nat.lt_or_ge (v + 1) n with inside | wraps
  · rw [Nat.mod_eq_of_lt inside]
    omega
  · rw [show v + 1 = n by omega, Nat.mod_self]
    omega

/-- In a ring no two processes have the same successor. -/
theorem eq_of_successor_eq {n u v : Nat} (inRangeU : u < n) (inRangeV : v < n)
    (same : (u + 1) % n = (v + 1) % n) : u = v := by
  have successor : ∀ k, k < n → (k + 1) % n = if k + 1 = n then 0 else k + 1 := by
    intro k inRange
    split
    · next last => rw [last, Nat.mod_self]
    · exact Nat.mod_eq_of_lt (by omega)
  rw [successor u inRangeU, successor v inRangeV] at same
  split at same <;> split at same <;> omega

/-- A process of several can be on its way from its view to the next one. -/
theorem Stance.legit_leaving {n : Nat} {v : NodeId} (several : 2 ≤ n) (inRange : v < n) :
    (Stance.leaving n v).legit n = true := by
  have next : (v + 1) % n < n := Nat.mod_lt _ (Nat.zero_lt_of_lt inRange)
  simp [Stance.legit, Stance.leaving, ViewPair.legitIn, ViewPair.legitChange, ViewPair.typeCheck,
    View.isTee, View.inRange, inRange, next, ne_successor several inRange]

/-- A process in a stance would move on a different way if it adopted another one. -/
def Stance.Apart (x y : Stance) : Prop :=
  match x.phase with
  | .steady => y.pair ≠ x.pair
  | .change => y.pair.next ≠ x.pair.next

instance (x y : Stance) : Decidable (x.Apart y) :=
  match phase : x.phase with
  | .steady => decidable_of_iff (y.pair ≠ x.pair) (by simp [Stance.Apart, phase])
  | .change => decidable_of_iff (y.pair.next ≠ x.pair.next) (by simp [Stance.Apart, phase])

theorem Stance.Apart.pair_ne {x y : Stance} (apart : x.Apart y) : y.pair ≠ x.pair := by
  unfold Stance.Apart at apart
  split at apart
  · exact apart
  · exact fun same => apart (by rw [same])

namespace Establishment

/-- The tables of a process have a place for each process of its cluster. -/
structure Sized (site : Site) (s : Establishment) : Prop where
  member : site.me < site.cluster.size
  pairs : s.pairs.length = site.cluster.size
  phases : s.phases.length = site.cluster.size
  echoes : s.echoes.length = site.cluster.size

variable {site : Site} {s : Establishment} {k : NodeId}

theorem sized_new (member : site.me < site.cluster.size) : (new site).Sized site :=
  ⟨member, List.length_replicate, List.length_replicate, List.length_replicate⟩

@[simp] theorem phase_stanceOf (s : Establishment) (k : NodeId) :
    (s.stanceOf k).phase = s.phaseOf k := rfl

@[simp] theorem pair_stanceOf (s : Establishment) (k : NodeId) :
    (s.stanceOf k).pair = s.pairOf k := rfl

theorem stanceOf_eq_iff {x : Stance} :
    s.stanceOf k = x ↔ s.phaseOf k = x.phase ∧ s.pairOf k = x.pair := by
  cases x
  simp [stanceOf]

/-- Tables with the same entry for a process show it in the same stance. -/
theorem stanceOf_congr {t : Establishment} (pairs : t.pairs[k]? = s.pairs[k]?)
    (phases : t.phases[k]? = s.phases[k]?) : t.stanceOf k = s.stanceOf k := by
  simp only [stanceOf, pairOf, phaseOf, List.getD_eq_getElem?_getD, pairs, phases]

/-! ### The own stance -/

theorem Sized.setOwn (sized : s.Sized site) (x : Stance) : (s.setOwn site x).Sized site :=
  ⟨sized.member, by simp [Establishment.setOwn, sized.pairs],
    by simp [Establishment.setOwn, sized.phases], sized.echoes⟩

theorem own_setOwn (sized : s.Sized site) (x : Stance) : (s.setOwn site x).own site = x := by
  have inPairs : site.me < s.pairs.length := sized.pairs ▸ sized.member
  have inPhases : site.me < s.phases.length := sized.phases ▸ sized.member
  simp [own, stanceOf, pairOf, phaseOf, setOwn, inPairs, inPhases]

/-! ### Tidying the tables -/

theorem getElem?_pairs_sanitizePeers (site : Site) (s : Establishment) (k : NodeId) :
    (s.sanitizePeers site).pairs[k]? = s.pairs[k]?.map fun pair =>
      if k ≠ site.me && !(s.pairOf k).typeCheck site.cluster.size then .reset else pair := by
  simp [sanitizePeers, List.getElem?_mapIdx]

theorem getElem?_phases_sanitizePeers (site : Site) (s : Establishment) (k : NodeId) :
    (s.sanitizePeers site).phases[k]? = s.phases[k]?.map fun phase =>
      if k ≠ site.me && !(s.pairOf k).typeCheck site.cluster.size then .steady else phase := by
  simp [sanitizePeers, List.getElem?_mapIdx]

theorem Sized.sanitizePeers (sized : s.Sized site) : (s.sanitizePeers site).Sized site :=
  ⟨sized.member, by simp [Establishment.sanitizePeers, sized.pairs],
    by simp [Establishment.sanitizePeers, sized.phases], sized.echoes⟩

/-- An entry that some process can hold stays as it is. -/
theorem stanceOf_sanitizePeers (fine : (s.pairOf k).typeCheck site.cluster.size = true) :
    (s.sanitizePeers site).stanceOf k = s.stanceOf k := by
  apply stanceOf_congr
  · simp [getElem?_pairs_sanitizePeers, fine]
  · simp [getElem?_phases_sanitizePeers, fine]

/-- What is seen of a process stays if it is a legitimate stance. -/
theorem stanceOf_sanitizePeers_of_legit
    (legit : (s.stanceOf k).legit site.cluster.size = true) :
    (s.sanitizePeers site).stanceOf k = s.stanceOf k :=
  stanceOf_sanitizePeers (Stance.typeCheck_of_legit legit)

theorem own_sanitizePeers (site : Site) (s : Establishment) :
    (s.sanitizePeers site).own site = s.own site := by
  apply stanceOf_congr
  · simp [getElem?_pairs_sanitizePeers]
  · simp [getElem?_phases_sanitizePeers]

/-- Afterwards every other process is seen in a pair that some process can hold. -/
theorem typeCheck_sanitizePeers (sized : s.Sized site) (other : k ≠ site.me)
    (inRange : k < site.cluster.size) :
    ((s.sanitizePeers site).pairOf k).typeCheck site.cluster.size = true := by
  have inPairs : k < s.pairs.length := sized.pairs ▸ inRange
  have entry : (s.sanitizePeers site).pairOf k =
      if (s.pairOf k).typeCheck site.cluster.size then s.pairOf k else .reset := by
    rw [pairOf, List.getD_eq_getElem?_getD, getElem?_pairs_sanitizePeers,
      List.getElem?_eq_getElem inPairs]
    cases fine : (s.pairOf k).typeCheck site.cluster.size
    · simp [other]
    · simp [pairOf, List.getElem?_eq_getElem inPairs]
  rw [entry]
  split
  · assumption
  · have positive : 0 < site.cluster.size := Nat.zero_lt_of_lt sized.member
    simp [ViewPair.typeCheck, ViewPair.reset, View.initial, View.isTee, View.inRange, positive]

/-! ### Transitions -/

theorem Sized.resetAll (sized : s.Sized site) : s.resetAll.state.Sized site :=
  ⟨sized.member, by simp [Establishment.resetAll, sized.pairs],
    by simp [Establishment.resetAll, sized.phases], by simp [Establishment.resetAll, sized.echoes]⟩

theorem own_resetAll (sized : s.Sized site) : s.resetAll.state.own site = .reset := by
  have inPairs : site.me < s.pairs.length := sized.pairs ▸ sized.member
  have inPhases : site.me < s.phases.length := sized.phases ▸ sized.member
  simp [own, stanceOf, pairOf, phaseOf, resetAll, inPairs, inPhases, Stance.reset]

theorem Sized.perform (sized : s.Sized site) (action : Case) :
    (s.perform site action).state.Sized site := by
  have changed : ∀ x wanted, ({ s.setOwn site x with changeWanted := wanted }).Sized site :=
    fun x _ =>
      have set := sized.setOwn x
      ⟨set.member, set.pairs, set.phases, set.echoes⟩
  cases action with
  | adopt k => exact changed _ _
  | advance =>
      unfold Establishment.perform
      dsimp only
      split
      · exact changed _ _
      · exact sized.setOwn _
  | stay => exact ⟨sized.member, sized.pairs, sized.phases, sized.echoes⟩
  | reset => exact sized.resetAll

/-- Whoever is seen in a stance does not support, in its phase, a process with another pair. -/
theorem not_supports {x : Stance} {j : NodeId} (seen : s.stanceOf j = x)
    (other : s.pairOf k ≠ x.pair) (mode : Mode) :
    (s.sameStance site k x.phase j || s.inTransit site k x.phase mode j) = false := by
  obtain ⟨phase, pair⟩ := stanceOf_eq_iff.mp seen
  simp [sameStance, samePair, inTransit, phase, pair, Ne.symm other]

/-- Only starting over counts as such. -/
theorem reset_not_mem_events_perform {action : Case} (goesOn : action ≠ .reset) :
    .reset ∉ (s.perform site action).events := by
  cases action with
  | adopt k => exact List.not_mem_nil
  | advance =>
      unfold perform
      dsimp only
      split <;> simp [nextView, establish]
  | stay => exact List.not_mem_nil
  | reset => contradiction

/-! ### The selected case, for both phases -/

/-- The first other process that may be adopted. -/
def followed (site : Site) (s : Establishment) : Option NodeId :=
  site.others.find? fun k =>
    (s.own site).Apart (s.stanceOf k) && s.adoptable site k (s.own site).phase .follow

/-- A process that follows nobody advances. -/
def mayAdvance (site : Site) (s : Establishment) : Bool :=
  match (s.own site).phase with
  | .steady => s.changeWanted && s.establishable site .steady .follow || (s.own site).pair.isReset
  | .change => s.establishable site .change .follow

theorem select_eq (site : Site) (s : Establishment) :
    s.select site =
      match s.followed site with
      | some k => .adopt k
      | none =>
          if s.mayAdvance site then .advance
          else if s.adoptable site site.me (s.own site).phase .remain then .stay
          else .reset := by
  cases phase : (s.own site).phase with
  | steady =>
      have same : s.followed site = s.followedSteady site := by
        simp [followed, followedSteady, Stance.Apart, phase]
      cases found : s.followedSteady site with
      | some k => simp [select, selectSteady, phase, same, found]
      | none => simp [select, selectSteady, mayAdvance, phase, same, found]
  | change =>
      have same : s.followed site = s.followedChange site := by
        simp [followed, followedChange, Stance.Apart, phase]
      cases found : s.followedChange site with
      | some k => simp [select, selectChange, phase, same, found]
      | none => simp [select, selectChange, mayAdvance, phase, same, found]

/-- Who is adopted was found among the others. -/
theorem followed_of_adopts (adopts : s.select site = .adopt k) : s.followed site = some k := by
  rw [select_eq] at adopts
  split at adopts
  · next found =>
      cases adopts
      exact found
  · split at adopts
    · contradiction
    · split at adopts <;> contradiction

/-- A process only ever adopts the pair of another process of the cluster. -/
theorem of_select_eq_adopt (adopts : s.select site = .adopt k) :
    k ≠ site.me ∧ k < site.cluster.size := by
  have listed := List.mem_of_find?_eq_some (followed_of_adopts adopts)
  simpa [Site.others, Cluster.nodes, and_comm] using listed

/-- Who is adopted is on another way, and has an adopting quorum. -/
theorem of_adopts (adopts : s.select site = .adopt k) :
    (s.own site).Apart (s.stanceOf k) ∧
      s.adoptable site k (s.own site).phase .follow = true := by
  have holds := List.find?_some (followed_of_adopts adopts)
  simpa only [Bool.and_eq_true, decide_eq_true_eq] using holds

theorem select_cases (site : Site) (s : Establishment) :
    (∃ k, s.select site = .adopt k) ∨ s.select site = .advance ∨ s.select site = .stay ∨
      s.select site = .reset := by
  cases s.select site <;> simp

/-! ### Rounds -/

/-- A round starts over, or it performs the selected case on the tidied tables. -/
theorem round_cases {P : Outcome Establishment → Prop} {answers : Answers}
    (starting : P (s.sanitizePeers site).resetAll)
    (going : (s.sanitizePeers site).select site ≠ .reset →
      (s.own site).legit site.cluster.size = true →
      P ((s.sanitizePeers site).perform site ((s.sanitizePeers site).select site))) :
    P (s.round site answers) := by
  unfold round
  dsimp only
  split
  · exact starting
  · next stays =>
      simp only [stale, Bool.or_eq_true, Bool.not_eq_true', not_or, Bool.not_eq_false] at stays
      by_cases selected : (s.sanitizePeers site).select site = .reset
      · rw [selected]
        exact starting
      · refine going selected ?_
        rw [← own_sanitizePeers site s]
        exact stays.1

/-- Unless agreement asks for a flush, a process performs what it selects in a legitimate stance. -/
theorem round_eq_perform (legit : (s.own site).legit site.cluster.size = true) {answers : Answers}
    (unasked : answers.needFlush = false) :
    s.round site answers =
      (s.sanitizePeers site).perform site ((s.sanitizePeers site).select site) := by
  have fresh : (s.sanitizePeers site).stale site site.me = false := by
    have same : (s.sanitizePeers site).stanceOf site.me = s.own site := own_sanitizePeers site s
    rw [stale, same, legit]
    rfl
  simp only [round, fresh, unasked, Bool.and_false, Bool.or_false, Bool.false_eq_true, if_false]

theorem Sized.round (sized : s.Sized site) (answers : Answers) :
    (s.round site answers).state.Sized site :=
  round_cases (P := fun outcome => outcome.state.Sized site) sized.sanitizePeers.resetAll
    fun _ _ => sized.sanitizePeers.perform _

/-! ### Announcements -/

theorem Sized.receive (sized : s.Sized site) (sender : NodeId) (a : Announcement) :
    (s.receive site sender a).Sized site := by
  unfold Establishment.receive
  split
  · exact ⟨sized.member, by simp [sized.pairs], by simp [sized.phases], by simp [sized.echoes]⟩
  · exact sized

/-- A legitimate announcement shows its sender, if that is another process of the cluster. -/
theorem stanceOf_receive (sized : s.Sized site) {sender : NodeId} {a : Announcement}
    (peer : site.isPeer sender = true) (valid : a.valid site.cluster.size = true) :
    (s.receive site sender a).stanceOf sender = a.stance ∧
      (s.receive site sender a).echoOf sender = some a.echo := by
  have inRange := (Site.isPeer_iff.mp peer).2
  have inPairs : sender < s.pairs.length := sized.pairs ▸ inRange
  have inPhases : sender < s.phases.length := sized.phases ▸ inRange
  have inEchoes : sender < s.echoes.length := sized.echoes ▸ inRange
  simp [receive, peer, valid, stanceOf, pairOf, phaseOf, echoOf, inPairs, inPhases, inEchoes]

/-- An announcement shows nothing of others than its sender. -/
theorem stanceOf_receive_of_ne {sender : NodeId} (other : k ≠ sender) (a : Announcement) :
    (s.receive site sender a).stanceOf k = s.stanceOf k ∧
      (s.receive site sender a).echoOf k = s.echoOf k := by
  unfold receive
  split
  · refine ⟨stanceOf_congr (List.getElem?_set_ne (Ne.symm other))
      (List.getElem?_set_ne (Ne.symm other)), ?_⟩
    simp only [echoOf, List.getD_eq_getElem?_getD, List.getElem?_set_ne (Ne.symm other)]
  · exact ⟨rfl, rfl⟩

/-- What is seen of the sender of an announcement is what it announces, or what was seen before. -/
theorem stanceOf_receive_eq_or (sized : s.Sized site) (sender : NodeId) (a : Announcement) :
    (s.receive site sender a).stanceOf sender = s.stanceOf sender ∧
        (s.receive site sender a).echoOf sender = s.echoOf sender ∨
      a.valid site.cluster.size = true ∧ (s.receive site sender a).stanceOf sender = a.stance ∧
        (s.receive site sender a).echoOf sender = some a.echo := by
  by_cases heard : (site.isPeer sender && a.valid site.cluster.size) = true
  · obtain ⟨peer, valid⟩ := Bool.and_eq_true_iff.mp heard
    exact .inr ⟨valid, stanceOf_receive sized peer valid⟩
  · left
    rw [receive, if_neg heard]
    exact ⟨rfl, rfl⟩

theorem own_receive (site : Site) (s : Establishment) (sender : NodeId) (a : Announcement) :
    (s.receive site sender a).own site = s.own site := by
  by_cases itself : site.me = sender
  · rw [receive, if_neg]
    simp [Site.isPeer, itself]
  · exact (stanceOf_receive_of_ne itself a).1

theorem changeWanted_receive (site : Site) (s : Establishment) (sender : NodeId)
    (a : Announcement) : (s.receive site sender a).changeWanted = s.changeWanted := by
  unfold receive
  split <;> rfl

end Establishment

end QuorumList
