/-!
Queues with a bounded number of items.

A full queue takes nothing more: an item that it refuses stays with the caller.  Items leave in the
order in which they came.
-/
namespace QuorumList.Link

/-- A queue of at most `capacity` items, the oldest first. -/
structure BoundedQueue (α : Type) where
  capacity : Nat
  items : List α
  fits : items.length ≤ capacity
deriving DecidableEq, Repr

namespace BoundedQueue

variable {α : Type}

/-- A queue without items. -/
def empty (capacity : Nat) : BoundedQueue α :=
  { capacity := capacity
    items := []
    fits := Nat.zero_le capacity }

instance : Inhabited (BoundedQueue α) :=
  ⟨empty 0⟩

/-- How many items wait. -/
def size (q : BoundedQueue α) : Nat :=
  q.items.length

/-- No item waits. -/
def isEmpty (q : BoundedQueue α) : Bool :=
  q.items.isEmpty

/-- The queue takes nothing more. -/
def isFull (q : BoundedQueue α) : Bool :=
  q.size = q.capacity

/-- Add an item behind all others, unless the queue is full. -/
def push? (item : α) (q : BoundedQueue α) : Option (BoundedQueue α) :=
  if h : q.items.length < q.capacity then
    some
      { capacity := q.capacity
        items := q.items ++ [item]
        fits := by
          simp only [List.length_append, List.length_cons, List.length_nil]
          omega }
  else none

/-- Take the oldest items off the queue, `count` of them. -/
def drop (count : Nat) (q : BoundedQueue α) : BoundedQueue α :=
  { capacity := q.capacity
    items := q.items.drop count
    fits := by
      have := q.fits
      simp only [List.length_drop]
      omega }

/-- The oldest item and the queue without it. -/
def pop? (q : BoundedQueue α) : Option (α × BoundedQueue α) :=
  q.items.head?.map fun item => (item, q.drop 1)

theorem items_of_push? {item : α} {q r : BoundedQueue α} (h : q.push? item = some r) :
    r.items = q.items ++ [item] := by
  unfold push? at h
  split at h
  · cases h
    rfl
  · cases h

theorem items_of_pop? {item : α} {q r : BoundedQueue α} (h : q.pop? = some (item, r)) :
    q.items = item :: r.items := by
  cases hq : q.items with
  | nil => simp [pop?, hq] at h
  | cons first rest =>
      simp only [pop?, hq, List.head?_cons, Option.map_some, Option.some.injEq,
        Prod.mk.injEq] at h
      obtain ⟨rfl, rfl⟩ := h
      simp [drop, hq]

end BoundedQueue

end QuorumList.Link
