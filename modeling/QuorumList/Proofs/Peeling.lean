import Mathlib.Data.List.Perm.Subperm
import QuorumList.Monitoring
import QuorumList.Proofs.CommonHistory

/-!
Peeling.

Whether a quorum has seen a quorum want a change is decided by taking members off one by one, the
least listed first, until enough opinions list all that remain.  The order in which members go is
fixed from the start, so peeling finds a group exactly when some final stretch of that order is one.

Suppose all but `F` processes want a change and have seen one another want it.  They are a group,
but peeling may take one of them off before an outsider that only some of them have seen.  It does
not if no such outsider is listed as often as they are, and this nobody can prevent from outside if
each outsider was seen by all of them or by `3F` of them at most.
-/
namespace QuorumList.Monitoring

variable {opinions : List Opinion} {threshold : Nat} {members : List NodeId} {a b c w : NodeId}

/-! ### The order in which members go -/

/-- Member `a` is taken off before `b`: fewer opinions list it, or as many and it is the first. -/
def GoesBefore (opinions : List Opinion) (a b : NodeId) : Prop :=
  support opinions a < support opinions b ∨ support opinions a = support opinions b ∧ a < b

instance : Decidable (GoesBefore opinions a b) :=
  inferInstanceAs (Decidable (_ ∨ _))

theorem GoesBefore.trans (first : GoesBefore opinions a b) (second : GoesBefore opinions b c) :
    GoesBefore opinions a c := by
  rcases first with fewer | ⟨same, earlier⟩ <;> rcases second with fewer' | ⟨same', earlier'⟩
  · exact .inl (Nat.lt_trans fewer fewer')
  · exact .inl (same' ▸ fewer)
  · exact .inl (same ▸ fewer')
  · exact .inr ⟨same.trans same', Nat.lt_trans earlier earlier'⟩

theorem GoesBefore.asymm (before : GoesBefore opinions a b) : ¬ GoesBefore opinions b a := by
  rcases before with fewer | ⟨same, earlier⟩ <;> rintro (fewer' | ⟨same', earlier'⟩)
  · exact Nat.lt_asymm fewer fewer'
  · exact Nat.ne_of_gt fewer same'
  · exact Nat.ne_of_gt fewer' same
  · exact Nat.lt_asymm earlier earlier'

/-- Of ascending members the weakest goes before all others. -/
theorem foldl_weakest (opinions : List Opinion) (m : NodeId) (rest : List NodeId)
    (ascending : (m :: rest).Pairwise (· < ·)) :
    let w := rest.foldl (fun w k => if support opinions k < support opinions w then k else w) m
    w ∈ m :: rest ∧ ∀ b ∈ m :: rest, b = w ∨ GoesBefore opinions w b := by
  induction rest generalizing m with
  | nil => simp
  | cons k rest ih =>
      obtain ⟨above, further⟩ := List.pairwise_cons.mp ascending
      obtain ⟨behind, furthest⟩ := List.pairwise_cons.mp further
      intro w
      by_cases weaker : support opinions k < support opinions m
      · -- `k` takes the place of `m`.
        obtain ⟨member, least⟩ := ih k further
        have same : w = rest.foldl
            (fun w k => if support opinions k < support opinions w then k else w) k := by
          simp only [w, List.foldl_cons, if_pos weaker]
        rw [← same] at member least
        constructor
        · exact List.mem_cons_of_mem _ member
        · intro b inList
          rcases List.mem_cons.mp inList with isFirst | later
          · right
            rw [isFirst]
            rcases least k List.mem_cons_self with isLeast | before
            · rw [← isLeast]
              exact .inl weaker
            · exact before.trans (.inl weaker)
          · exact least b later
      · -- `m` stays, and goes before `k` if it is not weaker than the rest.
        have skipped : (m :: rest).Pairwise (· < ·) :=
          List.pairwise_cons.mpr
            ⟨fun j inRest => above j (List.mem_cons_of_mem _ inRest), furthest⟩
        obtain ⟨member, least⟩ := ih m skipped
        have same : w = rest.foldl
            (fun w k => if support opinions k < support opinions w then k else w) m := by
          simp only [w, List.foldl_cons, if_neg weaker]
        rw [← same] at member least
        have before : GoesBefore opinions m k := by
          rcases Nat.lt_or_eq_of_le (Nat.le_of_not_lt weaker) with fewer | same
          · exact .inl fewer
          · exact .inr ⟨same, above k List.mem_cons_self⟩
        constructor
        · rcases List.mem_cons.mp member with isFirst | inRest
          · rw [isFirst]
            exact List.mem_cons_self
          · exact List.mem_cons_of_mem _ (List.mem_cons_of_mem _ inRest)
        · intro b inList
          rcases List.mem_cons.mp inList with rfl | later
          · exact least _ List.mem_cons_self
          · rcases List.mem_cons.mp later with rfl | inRest
            · right
              rcases least m List.mem_cons_self with isLeast | earlier
              · rw [← isLeast]
                exact before
              · exact earlier.trans before
            · exact least b (List.mem_cons_of_mem _ inRest)

theorem of_weakest? (ascending : members.Pairwise (· < ·))
    (weakest : weakest? opinions members = some w) :
    w ∈ members ∧ ∀ b ∈ members, b = w ∨ GoesBefore opinions w b := by
  cases members with
  | nil => simp [weakest?] at weakest
  | cons m rest =>
      have found := foldl_weakest opinions m rest ascending
      rw [weakest?, Option.some.injEq] at weakest
      rw [weakest] at found
      exact found

theorem exists_weakest (opinions : List Opinion) (some : members ≠ []) :
    ∃ w, weakest? opinions members = .some w := by
  cases members with
  | nil => exact absurd rfl some
  | cons m rest => exact ⟨_, rfl⟩

/-! ### What peeling finds -/

/-- The members that are still there when `w` is about to go. -/
def lasting (opinions : List Opinion) (w : NodeId) (members : List NodeId) : List NodeId :=
  members.filter fun b => b = w ∨ GoesBefore opinions w b

theorem mem_lasting :
    b ∈ lasting opinions w members ↔ b ∈ members ∧ (b = w ∨ GoesBefore opinions w b) := by
  simp [lasting]

theorem lasting_of_weakest (least : ∀ b ∈ members, b = w ∨ GoesBefore opinions w b) :
    lasting opinions w members = members := by
  apply List.filter_eq_self.mpr
  intro b inMembers
  exact decide_eq_true (least b inMembers)

/-- Taking the weakest member off changes nothing about what is there when another one goes. -/
theorem lasting_filter (weaker : GoesBefore opinions w a) :
    lasting opinions a (members.filter (· ≠ w)) = lasting opinions a members := by
  rw [lasting, lasting, List.filter_filter]
  apply List.filter_congr
  intro b _
  have other : (b = a ∨ GoesBefore opinions a b) → b ≠ w := by
    rintro (rfl | later) rfl
    · exact weaker.asymm weaker
    · exact weaker.asymm later
  simpa using other

/-- Enough members remain, and enough opinions list them all. -/
def Enough (opinions : List Opinion) (threshold : Nat) (members : List NodeId) : Prop :=
  threshold ≤ members.length ∧ threshold ≤ holders opinions members

instance : Decidable (Enough opinions threshold members) :=
  inferInstanceAs (Decidable (_ ∧ _))

/-- Peeling finds a group exactly when the members that are there at some moment are one. -/
theorem peel_iff (positive : 0 < threshold) {bound : Nat} (bounded : members.length ≤ bound)
    (ascending : members.Pairwise (· < ·)) :
    peel opinions threshold bound members = true ↔
      ∃ w ∈ members, Enough opinions threshold (lasting opinions w members) := by
  induction bound generalizing members with
  | zero =>
      have empty : members = [] := List.eq_nil_of_length_eq_zero (Nat.le_zero.mp bounded)
      simp [peel, empty]
  | succ bound ih =>
      rw [peel]
      split
      · next few =>
          -- What is there later is no more than what is there now.
          constructor
          · intro found
            contradiction
          · rintro ⟨w, -, large, -⟩
            have fewer : (lasting opinions w members).length ≤ members.length :=
              List.length_filter_le _ _
            omega
      · next many =>
          have some : members ≠ [] := by
            rintro rfl
            simp only [List.length_nil] at many
            omega
          obtain ⟨w, weakest⟩ := exists_weakest opinions some
          obtain ⟨inMembers, least⟩ := of_weakest? ascending weakest
          split
          · next held =>
              have whole : Enough opinions threshold (lasting opinions w members) := by
                rw [lasting_of_weakest least]
                exact ⟨Nat.le_of_not_lt many, held⟩
              exact ⟨fun _ => ⟨w, inMembers, whole⟩, fun _ => rfl⟩
          · next unheld =>
              have shorter : (members.filter (· ≠ w)).length ≤ bound := by
                have strictly : (members.filter (· ≠ w)).length < members.length := by
                  apply List.length_filter_lt_length_iff_exists.mpr
                  exact ⟨w, inMembers, by simp⟩
                omega
              simp only [weakest]
              rw [ih shorter (ascending.filter _)]
              constructor
              · rintro ⟨v, remains, enough⟩
                obtain ⟨inMembers, other⟩ := List.mem_filter.mp remains
                have later := (least v inMembers).resolve_left (by simpa using other)
                rw [lasting_filter later] at enough
                exact ⟨v, inMembers, enough⟩
              · rintro ⟨v, inMembers, enough⟩
                rcases least v inMembers with rfl | later
                · rw [lasting_of_weakest least] at enough
                  exact absurd enough.2 unheld
                · refine ⟨v, List.mem_filter.mpr ⟨inMembers, ?_⟩, ?_⟩
                  · have other : v ≠ w := by
                      rintro rfl
                      exact later.asymm later
                    simpa using other
                  · rw [lasting_filter later]
                    exact enough

theorem mem_wellListed (positive : 0 < threshold) :
    a ∈ wellListed opinions threshold ↔ threshold ≤ support opinions a := by
  rw [wellListed, List.mem_filter, decide_eq_true_eq]
  constructor
  · exact And.right
  · intro listed
    refine ⟨?_, listed⟩
    obtain ⟨o, member, lists⟩ := List.countP_pos_iff.mp (Nat.lt_of_lt_of_le positive listed)
    rw [NodeSet.contains_iff] at lists
    rw [← NodeSet.mem_iff, NodeSet.mem_ofList, List.mem_flatMap]
    exact ⟨o, member, lists⟩

theorem ascending_wellListed : (wellListed opinions threshold).Pairwise (· < ·) :=
  (NodeSet.ascending _).filter _

theorem shareMembers_iff (positive : 0 < threshold) :
    shareMembers opinions threshold = true ↔
      ∃ w ∈ wellListed opinions threshold,
        Enough opinions threshold (lasting opinions w (wellListed opinions threshold)) :=
  peel_iff positive (Nat.le_refl _) ascending_wellListed

/-- A change is supported exactly when the members that are there at some moment of peeling are
enough. -/
theorem supportsChange_iff {site : Site} {s : Monitoring} (positive : 0 < threshold) :
    s.supportsChange site threshold = true ↔
      ∃ w ∈ wellListed (s.candidates site) threshold,
        Enough (s.candidates site) threshold
          (lasting (s.candidates site) w (wellListed (s.candidates site) threshold)) := by
  rw [← shareMembers_iff positive, supportsChange, Bool.or_eq_true, Bool.and_eq_true,
    decide_eq_true_eq, decide_eq_true_eq]
  constructor
  · rintro (none | ⟨-, shared⟩)
    · omega
    · exact shared
  · intro shared
    obtain ⟨w, -, -, held⟩ := (shareMembers_iff positive).mp shared
    exact .inr ⟨Nat.le_trans held List.countP_le_length, shared⟩

/-! ### Agreed suspicion -/

theorem establishQuorum_pos (c : Cluster) : 0 < c.establishQuorum :=
  Nat.succ_pos _

/-- All but `F` processes want a change of our view and have seen one another want it; they may have
seen others as well. -/
structure Agreed (site : Site) (correct : NodeId → Bool) (s : Monitoring) : Prop where
  length : s.opinions.length = site.cluster.size
  most : site.cluster.size ≤ site.cluster.nodes.countP correct + site.cluster.faults
  wantsChange : ∀ k < site.cluster.size, correct k = true → (s.opinionOf k).wantsChange = true
  view : ∀ k < site.cluster.size, correct k = true → (s.opinionOf k).view = (s.own site).view
  seconded : ∀ k < site.cluster.size, correct k = true →
    ∀ j < site.cluster.size, correct j = true → j ∈ (s.opinionOf k).seconded

namespace Agreed

variable {site : Site} {correct : NodeId → Bool} {s : Monitoring}

instance : Decidable (s.Agreed site correct) :=
  decidable_of_iff
    (s.opinions.length = site.cluster.size ∧
      site.cluster.size ≤ site.cluster.nodes.countP correct + site.cluster.faults ∧
      (∀ k < site.cluster.size, correct k = true → (s.opinionOf k).wantsChange = true) ∧
      (∀ k < site.cluster.size, correct k = true → (s.opinionOf k).view = (s.own site).view) ∧
      ∀ k < site.cluster.size, correct k = true →
        ∀ j < site.cluster.size, correct j = true → (s.opinionOf k).seconded.contains j = true)
    ⟨fun ⟨length, most, wants, view, seconded⟩ =>
        ⟨length, most, wants, view, fun k below isCorrect j inRange isAgreed =>
          NodeSet.contains_iff.mp (seconded k below isCorrect j inRange isAgreed)⟩,
      fun agreed =>
        ⟨agreed.length, agreed.most, agreed.wantsChange, agreed.view,
          fun k below isCorrect j inRange isAgreed =>
            NodeSet.contains_iff.mpr (agreed.seconded k below isCorrect j inRange isAgreed)⟩⟩

/-- Counting candidates is counting the processes whose opinions are candidates. -/
theorem countP_candidates (agreed : s.Agreed site correct) (p : Opinion → Bool) :
    (s.candidates site).countP p =
      site.cluster.nodes.countP fun k =>
        p (s.opinionOf k) &&
          ((s.opinionOf k).wantsChange && (s.opinionOf k).view = (s.own site).view) := by
  have listed : site.cluster.nodes.map s.opinionOf = s.opinions := by
    apply List.ext_getElem
    · simp [Cluster.nodes, agreed.length]
    · intro k _ inTable
      simp [opinionOf, Cluster.nodes, inTable]
  rw [candidates, List.countP_filter, ← listed, List.countP_map]
  rfl

theorem quorum (agreed : s.Agreed site correct)
    (large : 5 * site.cluster.faults < site.cluster.size) :
    site.cluster.establishQuorum ≤ site.cluster.nodes.countP correct := by
  have most := agreed.most
  rw [Cluster.establishQuorum]
  omega

/-- What holds of the opinions of all who agree holds of an establishing quorum of candidates. -/
theorem quorum_le_countP (agreed : s.Agreed site correct)
    (large : 5 * site.cluster.faults < site.cluster.size) {p : Opinion → Bool}
    (all : ∀ k < site.cluster.size, correct k = true → p (s.opinionOf k) = true) :
    site.cluster.establishQuorum ≤ (s.candidates site).countP p := by
  rw [agreed.countP_candidates]
  apply Nat.le_trans (agreed.quorum large)
  apply List.countP_mono_left
  intro k inCluster isCorrect
  have below : k < site.cluster.size := List.mem_range.mp inCluster
  simp [all k below isCorrect, agreed.wantsChange k below isCorrect, agreed.view k below isCorrect]

theorem mem_wellListed (agreed : s.Agreed site correct)
    (large : 5 * site.cluster.faults < site.cluster.size) {c : NodeId}
    (inRange : c < site.cluster.size) (isAgreed : correct c = true) :
    c ∈ wellListed (s.candidates site) site.cluster.establishQuorum := by
  apply (Monitoring.mem_wellListed (establishQuorum_pos _)).mpr
  apply agreed.quorum_le_countP large
  intro k below isCorrect
  exact NodeSet.contains_iff.mpr (agreed.seconded k below isCorrect c inRange isAgreed)

/-- Some process agrees, and of those who agree one goes first. -/
theorem exists_first (agreed : s.Agreed site correct)
    (large : 5 * site.cluster.faults < site.cluster.size) (opinions : List Opinion) :
    ∃ w, w < site.cluster.size ∧ correct w = true ∧
      ∀ c < site.cluster.size, correct c = true → c = w ∨ GoesBefore opinions w c := by
  have some : site.cluster.nodes.filter correct ≠ [] := by
    rw [← List.length_pos_iff, ← List.countP_eq_length_filter]
    exact Nat.lt_of_lt_of_le (establishQuorum_pos _) (agreed.quorum large)
  have ascending : (site.cluster.nodes.filter correct).Pairwise (· < ·) :=
    List.pairwise_lt_range.filter _
  obtain ⟨w, weakest⟩ := exists_weakest opinions some
  obtain ⟨member, least⟩ := of_weakest? ascending weakest
  obtain ⟨inCluster, isAgreed⟩ := List.mem_filter.mp member
  refine ⟨w, List.mem_range.mp inCluster, isAgreed, fun c inRange isCorrect => ?_⟩
  exact least c (List.mem_filter.mpr ⟨List.mem_range.mpr inRange, isCorrect⟩)

/-- If those whom only some have seen go before all who agree, then the members that are there when
the first who agrees is about to go are enough. -/
theorem supportsChange_of_goesBefore (agreed : s.Agreed site correct)
    (large : 5 * site.cluster.faults < site.cluster.size)
    (yields : ∀ x ∈ wellListed (s.candidates site) site.cluster.establishQuorum,
      (∃ k < site.cluster.size, correct k = true ∧ x ∉ (s.opinionOf k).seconded) →
        ∀ c < site.cluster.size, correct c = true → GoesBefore (s.candidates site) x c) :
    s.supportsChange site site.cluster.establishQuorum = true := by
  obtain ⟨w, below, isAgreed, least⟩ := agreed.exists_first large (s.candidates site)
  apply (supportsChange_iff (establishQuorum_pos _)).mpr
  refine ⟨w, agreed.mem_wellListed large below isAgreed, ?_, ?_⟩
  · -- All who agree are still there.
    have there : (site.cluster.nodes.filter correct).Subperm
        (lasting (s.candidates site) w
          (wellListed (s.candidates site) site.cluster.establishQuorum)) := by
      apply List.Nodup.subperm
      · exact List.nodup_range.filter _
      · intro c member
        obtain ⟨inCluster, isCorrect⟩ := List.mem_filter.mp member
        have inRange := List.mem_range.mp inCluster
        exact mem_lasting.mpr
          ⟨agreed.mem_wellListed large inRange isCorrect, least c inRange isCorrect⟩
    have length := there.length_le
    rw [← List.countP_eq_length_filter] at length
    exact Nat.le_trans (agreed.quorum large) length
  · -- Whoever is there has been seen by all who agree.
    apply agreed.quorum_le_countP large
    intro k inRange isCorrect
    rw [List.all_eq_true]
    intro x member
    obtain ⟨listed, remains⟩ := mem_lasting.mp member
    by_contra unseen
    rw [NodeSet.contains_iff] at unseen
    have before := yields x listed ⟨k, inRange, isCorrect, unseen⟩ w below isAgreed
    rcases remains with rfl | later
    · exact before.asymm before
    · exact before.asymm later

/-- The others alone make no one well listed. -/
theorem seen_of_mem_wellListed (agreed : s.Agreed site correct) {x : NodeId}
    (listed : x ∈ wellListed (s.candidates site) site.cluster.establishQuorum) :
    3 * site.cluster.faults < site.cluster.nodes.countP fun k =>
      correct k && (s.opinionOf k).seconded.contains x := by
  have listed := (Monitoring.mem_wellListed (establishQuorum_pos _)).mp listed
  rw [support, agreed.countP_candidates, Cluster.establishQuorum] at listed
  have most := agreed.most
  have size : site.cluster.nodes.length = site.cluster.size := List.length_range
  have overlap := countP_add_countP_le correct
    (fun k => (s.opinionOf k).seconded.contains x) site.cluster.nodes
  have fewer : (site.cluster.nodes.countP fun k => (s.opinionOf k).seconded.contains x &&
        ((s.opinionOf k).wantsChange && (s.opinionOf k).view = (s.own site).view)) ≤
      site.cluster.nodes.countP fun k => (s.opinionOf k).seconded.contains x := by
    apply List.countP_mono_left
    intro k _ both
    simp only [Bool.and_eq_true] at both
    exact both.1
  omega

end Agreed

/-- Whether agreed suspicion supports a change.  Peeling finds out exactly when the members that are
there at some moment are enough.  It does if all whom only some of those who agree have seen go
before these, and whatever the other opinions contain it does if each outsider was seen by all of
those who agree or by `3F` of them at most. -/
theorem agreed_suspicion_supported {site : Site} {correct : NodeId → Bool} {s : Monitoring}
    (large : 5 * site.cluster.faults < site.cluster.size) (agreed : s.Agreed site correct) :
    (s.supportsChange site site.cluster.establishQuorum = true ↔
      ∃ w ∈ wellListed (s.candidates site) site.cluster.establishQuorum,
        Enough (s.candidates site) site.cluster.establishQuorum
          (lasting (s.candidates site) w
            (wellListed (s.candidates site) site.cluster.establishQuorum))) ∧
    ((∀ x ∈ wellListed (s.candidates site) site.cluster.establishQuorum,
        (∃ k < site.cluster.size, correct k = true ∧ x ∉ (s.opinionOf k).seconded) →
          ∀ c < site.cluster.size, correct c = true → GoesBefore (s.candidates site) x c) →
      s.supportsChange site site.cluster.establishQuorum = true) ∧
    ((∀ x, (∀ k < site.cluster.size, correct k = true → x ∈ (s.opinionOf k).seconded) ∨
        (site.cluster.nodes.countP fun k =>
          correct k && (s.opinionOf k).seconded.contains x) ≤ 3 * site.cluster.faults) →
      s.supportsChange site site.cluster.establishQuorum = true) := by
  refine ⟨supportsChange_iff (establishQuorum_pos _), agreed.supportsChange_of_goesBefore large, ?_⟩
  intro seen
  apply agreed.supportsChange_of_goesBefore large
  rintro x listed ⟨k, inRange, isCorrect, unseen⟩
  have many := agreed.seen_of_mem_wellListed listed
  rcases seen x with byAll | few
  · exact absurd (byAll k inRange isCorrect) unseen
  · omega

/-- Six processes want a change.  The outsider has seen nobody else want it, one process has not
seen the outsider, and the others have seen everybody. -/
def sixOpinions (outsider doubter : NodeId) : Monitoring :=
  { opinions := (List.range 6).map fun k =>
      { service := .ok
        view := .id 1
        wantsChange := true
        seconded := .filterBelow 6 fun j =>
          if k = outsider then j = outsider else if k = doubter then j ≠ outsider else true } }

def secondOfSix : Site :=
  { me := 1, cluster := .new 6 1, switches := .none }

/-- The first process is an outsider that is listed as often as all others, and goes first. -/
theorem first_outsider_yields :
    5 * secondOfSix.cluster.faults < secondOfSix.cluster.size ∧
      (sixOpinions 0 5).Agreed secondOfSix (· ≠ 0) ∧
      (sixOpinions 0 5).supportsChange secondOfSix secondOfSix.cluster.establishQuorum = true := by
  have large : 5 * secondOfSix.cluster.faults < secondOfSix.cluster.size := by decide
  have agreed : (sixOpinions 0 5).Agreed secondOfSix (· ≠ 0) := by decide +kernel
  refine ⟨large, agreed, (agreed_suspicion_supported large agreed).2.1 ?_⟩
  have first : ∀ x ∈ wellListed ((sixOpinions 0 5).candidates secondOfSix)
      secondOfSix.cluster.establishQuorum,
      x = 0 ∨ ∀ k < secondOfSix.cluster.size, k ≠ 0 →
        ((sixOpinions 0 5).opinionOf k).seconded.contains x = true := by decide +kernel
  rintro x listed ⟨k, inRange, isCorrect, unseen⟩
  have isFirst : x = 0 := (first x listed).resolve_right fun seen =>
    unseen (NodeSet.contains_iff.mp (seen k inRange (by simpa using isCorrect)))
  subst isFirst
  decide +kernel

/-- The last process is an outsider that is listed as often as all others, and the others go
first. -/
theorem last_outsider_blocks_change :
    5 * secondOfSix.cluster.faults < secondOfSix.cluster.size ∧
      (sixOpinions 5 4).Agreed secondOfSix (· ≠ 5) ∧
      (sixOpinions 5 4).supportsChange secondOfSix secondOfSix.cluster.establishQuorum =
        false := by
  decide +kernel

end QuorumList.Monitoring
