import QuorumList.Proofs.Peeling

/-!
Support.

Peeling is a loop: each pass either ends it or takes one member off and goes on.  `Peels` follows
the loop pass by pass, without a bound on their number.  The number of members is one: the loop ends
after no more passes than there are members to spare, and `peel` gives the answer that it ends with.

What remains at the end of a loop that found a group is part of what it started from, and enough
opinions list all of it.  So behind a change that finds support there are processes of our view that
want it, and members that all of these have seen.
-/
namespace QuorumList.Monitoring

variable {opinions : List Opinion} {threshold passes : Nat} {members : List NodeId} {found : Bool}

/-! ### The loop -/

/-- Peeling that starts from the given members makes so many passes, and ends with the given
answer. -/
inductive Peels (opinions : List Opinion) (threshold : Nat) : List NodeId → Nat → Bool → Prop
  | few {members : List NodeId} (short : members.length < threshold) :
      Peels opinions threshold members 0 false
  | held {members : List NodeId} (enough : Enough opinions threshold members) :
      Peels opinions threshold members 1 true
  | bare {members : List NodeId} (many : threshold ≤ members.length)
      (unheld : holders opinions members < threshold) (none : weakest? opinions members = none) :
      Peels opinions threshold members 1 false
  | off {members : List NodeId} {w : NodeId} {passes : Nat} {found : Bool}
      (many : threshold ≤ members.length) (unheld : holders opinions members < threshold)
      (weakest : weakest? opinions members = some w)
      (rest : Peels opinions threshold (members.filter (· ≠ w)) passes found) :
      Peels opinions threshold members (passes + 1) found

namespace Peels

/-- The loop has one way to go. -/
theorem unique {passes' : Nat} {found' : Bool}
    (peels : Peels opinions threshold members passes found)
    (other : Peels opinions threshold members passes' found') :
    passes' = passes ∧ found' = found := by
  induction peels generalizing passes' with
  | few short =>
      cases other with
      | few _ => exact ⟨rfl, rfl⟩
      | held enough => exact absurd enough.1 (Nat.not_le_of_lt short)
      | bare many _ _ => exact absurd many (Nat.not_le_of_lt short)
      | off many _ _ _ => exact absurd many (Nat.not_le_of_lt short)
  | held enough =>
      cases other with
      | few short => exact absurd enough.1 (Nat.not_le_of_lt short)
      | held _ => exact ⟨rfl, rfl⟩
      | bare _ unheld _ => exact absurd enough.2 (Nat.not_le_of_lt unheld)
      | off _ unheld _ _ => exact absurd enough.2 (Nat.not_le_of_lt unheld)
  | bare many unheld none =>
      cases other with
      | few short => exact absurd many (Nat.not_le_of_lt short)
      | held enough => exact absurd enough.2 (Nat.not_le_of_lt unheld)
      | bare _ _ _ => exact ⟨rfl, rfl⟩
      | off _ _ weakest _ => simp [none] at weakest
  | off many unheld weakest _ ih =>
      cases other with
      | few short => exact absurd many (Nat.not_le_of_lt short)
      | held enough => exact absurd enough.2 (Nat.not_le_of_lt unheld)
      | bare _ _ none => simp [none] at weakest
      | off _ _ weakest' rest =>
          rw [weakest, Option.some.injEq] at weakest'
          subst weakest'
          obtain ⟨same, sameAnswer⟩ := ih rest
          exact ⟨congrArg (· + 1) same, sameAnswer⟩

/-- What remains when a group is found is part of what there was at the start. -/
theorem exists_sublist (peels : Peels opinions threshold members passes true) :
    ∃ kept, kept.Sublist members ∧ Enough opinions threshold kept := by
  generalize answer : true = found at peels
  induction peels with
  | few _ => contradiction
  | held enough => exact ⟨_, List.Sublist.refl _, enough⟩
  | bare _ _ _ => contradiction
  | off _ _ _ _ ih =>
      obtain ⟨kept, part, enough⟩ := ih answer
      exact ⟨kept, part.trans List.filter_sublist, enough⟩

end Peels

theorem length_filter_weakest (weakest : weakest? opinions members = some w)
    (ascending : members.Pairwise (· < ·)) :
    (members.filter (· ≠ w)).length < members.length := by
  apply List.length_filter_lt_length_iff_exists.mpr
  exact ⟨w, (of_weakest? ascending weakest).1, by simp⟩

/-- The loop ends, and with the answer of `peel`: each pass but the last takes a member off, and
fewer than `threshold` members make no further pass. -/
theorem exists_peels (positive : 0 < threshold) {bound : Nat} (bounded : members.length ≤ bound)
    (ascending : members.Pairwise (· < ·)) :
    ∃ passes ≤ members.length + 1 - threshold,
      Peels opinions threshold members passes (peel opinions threshold bound members) := by
  induction bound generalizing members with
  | zero =>
      have short : members.length < threshold := by omega
      exact ⟨0, Nat.zero_le _, .few short⟩
  | succ bound ih =>
      rw [peel]
      split
      · next short => exact ⟨0, Nat.zero_le _, .few short⟩
      · next many =>
          have many := Nat.le_of_not_lt many
          split
          · next held => exact ⟨1, by omega, .held ⟨many, held⟩⟩
          · next unheld =>
              have unheld := Nat.lt_of_not_le unheld
              have some : members ≠ [] := by
                rintro rfl
                exact absurd many (Nat.not_le_of_lt positive)
              obtain ⟨w, weakest⟩ := exists_weakest opinions some
              have shorter := length_filter_weakest weakest ascending
              obtain ⟨passes, few, peels⟩ := ih (by omega) (ascending.filter (· ≠ w))
              simp only [weakest]
              exact ⟨passes + 1, by omega, .off many unheld weakest peels⟩

/-! ### The group that is found -/

variable {site : Site} {s : Monitoring}

/-- Counting opinions is counting the processes that hold them. -/
theorem countP_opinions (s : Monitoring) (p : Opinion → Bool) :
    s.opinions.countP p = (List.range s.opinions.length).countP fun k => p (s.opinionOf k) := by
  have listed : (List.range s.opinions.length).map s.opinionOf = s.opinions := by
    apply List.ext_getElem
    · simp
    · intro k _ inTable
      simp [opinionOf, inTable]
  conv_lhs => rw [← listed]
  exact List.countP_map

/-- The processes in our view that want a change and have seen all given members want it. -/
def backers (site : Site) (s : Monitoring) (members : List NodeId) : NodeSet :=
  .filterBelow s.opinions.length fun k =>
    members.all (s.opinionOf k).seconded.contains &&
      ((s.opinionOf k).wantsChange && (s.opinionOf k).view = (s.own site).view)

theorem card_backers : (s.backers site members).card = holders (s.candidates site) members := by
  rw [backers, NodeSet.card_filterBelow, holders, candidates, List.countP_filter, countP_opinions]

theorem mem_backers {k : NodeId} :
    k ∈ s.backers site members ↔
      k < s.opinions.length ∧ (s.opinionOf k).wantsChange = true ∧
        (s.opinionOf k).view = (s.own site).view ∧
        ∀ m ∈ members, m ∈ (s.opinionOf k).seconded := by
  simp only [backers, NodeSet.mem_filterBelow, Bool.and_eq_true, List.all_eq_true,
    NodeSet.contains_iff, decide_eq_true_eq]
  constructor
  · rintro ⟨inTable, lists, wants, sameView⟩
    exact ⟨inTable, wants, sameView, lists⟩
  · rintro ⟨inTable, wants, sameView, lists⟩
    exact ⟨inTable, lists, wants, sameView⟩

/-- Looking for support ends and is sound.  The loop over the well listed members has one way to go;
it makes no more passes than there are such members to spare, and its answer decides, unless too few
processes in our view want a change at all.  Where support is found, there are `threshold` processes
in our view that want a change, and `threshold` members that each of these has seen want it. -/
theorem supportsChange_sound (site : Site) (s : Monitoring) {threshold : Nat}
    (positive : 0 < threshold) :
    (∃ passes ≤ (wellListed (s.candidates site) threshold).length + 1 - threshold, ∃ found,
      (∀ passes' found',
        Peels (s.candidates site) threshold (wellListed (s.candidates site) threshold)
          passes' found' ↔ passes' = passes ∧ found' = found) ∧
      s.supportsChange site threshold =
        (decide (threshold ≤ (s.candidates site).length) && found)) ∧
    (s.supportsChange site threshold = true →
      ∃ group common : NodeSet, threshold ≤ group.card ∧ threshold ≤ common.card ∧
        ∀ k ∈ group, k < s.opinions.length ∧ (s.opinionOf k).wantsChange = true ∧
          (s.opinionOf k).view = (s.own site).view ∧
          ∀ m ∈ common, m ∈ (s.opinionOf k).seconded) := by
  have ascending : (wellListed (s.candidates site) threshold).Pairwise (· < ·) :=
    ascending_wellListed
  obtain ⟨passes, few, peels⟩ := exists_peels positive (Nat.le_refl _) ascending
  have decides : s.supportsChange site threshold =
      (decide (threshold ≤ (s.candidates site).length) &&
        shareMembers (s.candidates site) threshold) := by
    simp [supportsChange, Nat.ne_of_gt positive]
  constructor
  · refine ⟨passes, few, shareMembers (s.candidates site) threshold, ?_, decides⟩
    intro passes' found'
    constructor
    · exact peels.unique
    · rintro ⟨rfl, rfl⟩
      exact peels
  · intro supported
    rw [decides, Bool.and_eq_true] at supported
    have shared : peel (s.candidates site) threshold _ _ = true := supported.2
    rw [shared] at peels
    obtain ⟨kept, part, large, held⟩ := peels.exists_sublist
    refine ⟨s.backers site kept, ⟨kept, ascending.sublist part⟩, ?_, large, ?_⟩
    · rw [card_backers]
      exact held
    · intro k inGroup
      exact mem_backers.mp inGroup

/-- An outsider that is listed as often as all others is taken off in the first pass, and the second
one finds the other five. -/
theorem support_of_five :
    0 < 5 ∧
      Peels ((sixOpinions 0 5).candidates secondOfSix) 5
        (wellListed ((sixOpinions 0 5).candidates secondOfSix) 5) 2 true ∧
      ∃ group common : NodeSet, 5 ≤ group.card ∧ 5 ≤ common.card ∧
        ∀ k ∈ group, k < 6 ∧ ((sixOpinions 0 5).opinionOf k).wantsChange = true ∧
          ((sixOpinions 0 5).opinionOf k).view = ((sixOpinions 0 5).own secondOfSix).view ∧
          ∀ m ∈ common, m ∈ ((sixOpinions 0 5).opinionOf k).seconded := by
  refine ⟨by decide, ?_,
    (supportsChange_sound secondOfSix (sixOpinions 0 5) (by decide)).2 (by decide +kernel)⟩
  refine .off (w := 0) (by decide +kernel) (by decide +kernel) (by decide +kernel) ?_
  exact .held (by decide +kernel)

end QuorumList.Monitoring
