import QuorumList.View

/-!
Finite sets of processes.

A set is the ascending list of its members, so two sets are equal exactly when they have the same
members, and a set is written as that list.
-/
namespace QuorumList

/-- A finite set of processes. -/
structure NodeSet where
  members : List NodeId
  ascending : members.Pairwise (· < ·)
deriving DecidableEq

namespace NodeSet

instance : Repr NodeSet where
  reprPrec s p := reprPrec s.members p

/-- The set without members. -/
def empty : NodeSet :=
  ⟨[], .nil⟩

instance : Inhabited NodeSet :=
  ⟨empty⟩

instance : Membership NodeId NodeSet where
  mem s node := node ∈ s.members

theorem mem_iff {node : NodeId} {s : NodeSet} : node ∈ s ↔ node ∈ s.members :=
  Iff.rfl

@[simp] theorem not_mem_empty (node : NodeId) : node ∉ empty := by
  simp [mem_iff, empty]

/-- Put a process into its place in an ascending list. -/
def place (node : NodeId) : List NodeId → List NodeId
  | [] => [node]
  | k :: rest =>
      if node < k then node :: k :: rest
      else if node = k then k :: rest
      else k :: place node rest

theorem mem_place {node k : NodeId} {l : List NodeId} :
    k ∈ place node l ↔ k = node ∨ k ∈ l := by
  induction l with
  | nil => simp [place]
  | cons head rest ih =>
      simp only [place]
      split
      · simp
      · split
        · next equal => subst equal; simp
        · simp only [List.mem_cons, ih]
          constructor
          · rintro (h | h | h) <;> simp [h]
          · rintro (h | h | h) <;> simp [h]

theorem ascending_place {node : NodeId} {l : List NodeId} (ascending : l.Pairwise (· < ·)) :
    (place node l).Pairwise (· < ·) := by
  induction ascending with
  | nil => simp [place]
  | @cons head rest below above ih =>
      simp only [place]
      split
      · next less =>
          refine .cons ?_ (.cons below above)
          intro k member
          rcases List.mem_cons.mp member with rfl | inRest
          · exact less
          · exact Nat.lt_trans less (below k inRest)
      · split
        · exact .cons below above
        · next notLess notEqual =>
            refine .cons ?_ ih
            intro k member
            rcases mem_place.mp member with rfl | inRest
            · exact Nat.lt_of_le_of_ne (Nat.le_of_not_lt notLess) (Ne.symm notEqual)
            · exact below k inRest

/-- The set with one more member. -/
def insert (node : NodeId) (s : NodeSet) : NodeSet :=
  ⟨place node s.members, ascending_place s.ascending⟩

@[simp] theorem mem_insert {node k : NodeId} {s : NodeSet} :
    k ∈ s.insert node ↔ k = node ∨ k ∈ s :=
  mem_place

/-- The set with the processes of a list put in. -/
def insertAll (nodes : List NodeId) (s : NodeSet) : NodeSet :=
  nodes.foldl (fun s k => s.insert k) s

@[simp] theorem mem_insertAll {k : NodeId} {nodes : List NodeId} {s : NodeSet} :
    k ∈ s.insertAll nodes ↔ k ∈ nodes ∨ k ∈ s := by
  induction nodes generalizing s with
  | nil => simp [insertAll]
  | cons node rest ih =>
      have step : s.insertAll (node :: rest) = (s.insert node).insertAll rest := rfl
      rw [step, ih, mem_insert, List.mem_cons]
      constructor
      · rintro (inRest | isNode | inSet) <;> simp [*]
      · rintro ((isNode | inRest) | inSet) <;> simp [*]

/-- The set of the processes in a list. -/
def ofList (nodes : List NodeId) : NodeSet :=
  empty.insertAll nodes

@[simp] theorem mem_ofList {k : NodeId} {nodes : List NodeId} : k ∈ ofList nodes ↔ k ∈ nodes := by
  simp [ofList]

/-- The members of either set. -/
def union (s t : NodeSet) : NodeSet :=
  s.insertAll t.members

@[simp] theorem mem_union {k : NodeId} {s t : NodeSet} : k ∈ s.union t ↔ k ∈ s ∨ k ∈ t := by
  rw [union, mem_insertAll, ← mem_iff, or_comm]

/-- The number of members. -/
def card (s : NodeSet) : Nat :=
  s.members.length

/-- The process is a member. -/
def contains (s : NodeSet) (node : NodeId) : Bool :=
  s.members.contains node

@[simp] theorem contains_iff {s : NodeSet} {node : NodeId} :
    s.contains node = true ↔ node ∈ s := by
  simp [contains, mem_iff]

/-- The processes below `n` with a property. -/
def filterBelow (n : Nat) (p : NodeId → Bool) : NodeSet :=
  ⟨(List.range n).filter p, (List.pairwise_lt_range).filter p⟩

@[simp] theorem mem_filterBelow {n : Nat} {p : NodeId → Bool} {k : NodeId} :
    k ∈ filterBelow n p ↔ k < n ∧ p k = true := by
  simp [mem_iff, filterBelow]

theorem card_filterBelow (n : Nat) (p : NodeId → Bool) :
    (filterBelow n p).card = (List.range n).countP p := by
  simp [card, filterBelow, List.countP_eq_length_filter]

/-- A set as a JSON value. -/
def toJson (s : NodeSet) : Json :=
  .list .nat s.members

/-- A set from a JSON value; the members may come in any order and more than once. -/
def decoder : Json.Decoder NodeSet := fun source => do
  let nodes ← Json.Decoder.list .unsigned source
  pure (ofList nodes)

end NodeSet

end QuorumList
