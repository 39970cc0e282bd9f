import QuorumList.Proofs.Comparison
import QuorumList.Proofs.Repetition

/-!
Executing a history.

A fresh record that executes a line of requests ends up with what the line says: the list that the
line makes of the empty list, the end of the line in the log, and for each client the last request
of the line together with the list right after it.  Requests that are pushed to the pending requests
or to the queue on the way change none of this.  They stay there until a request of their origin is
executed.
-/
namespace QuorumList

namespace Record

/-! ### Edits -/

/-- An edit of a record: the execution of a request, with the processes known to have executed it,
or a push to the pending requests or to the queue. -/
inductive Edit where
  | execute (a : AssignedRequest) (executedBy : NodeSet)
  | pend (q : ClientRequest)
  | enqueue (e : QueueEntry)
deriving DecidableEq, Repr

namespace Edit

/-- The edit is no execution of the origin of a request. -/
def spares (q : ClientRequest) : Edit → Bool
  | .execute a _ => !q.sameOrigin a.request
  | _ => true

end Edit

/-- What was pushed and still waits: no later edit executes a request of its origin. -/
def waiting {α : Type} (origin : α → ClientRequest) (pushed? : Edit → Option α) :
    List Edit → List α
  | [] => []
  | first :: rest =>
      (pushed? first).toList.filter (fun x => rest.all (Edit.spares (origin x))) ++
        waiting origin pushed? rest

variable {capacity : Nat} {edits : List Edit} {done : List LogEntry} {r other : Record}

/-- The record shows a history: its list, the end of it in the log, and the last reply to each
client. -/
structure Remembers (capacity : Nat) (done : List LogEntry) (r : Record) : Prop where
  state : r.state = stateAfter (done.map LogEntry.request)
  log : r.log = lastEntries capacity done
  unheard : ∀ client, (∀ a ∈ done.map LogEntry.request, a.request.client ≠ client) →
    r.replies[client]?.join = none
  replied : ∀ before a after, done.map LogEntry.request = before ++ a :: after →
    (∀ b ∈ after, b.request.client ≠ a.request.client) →
      r.replies[a.request.client]?.join =
        some { request := a.request, reply := stateAfter (before ++ [a]) }

namespace Remembers

theorem new (clients : Nat) : (Record.new clients).Remembers capacity [] where
  state := rfl
  log := (lastEntries_nil capacity).symm
  unheard := by
    intro client _
    rw [Record.new, List.getElem?_replicate]
    split <;> rfl
  replied := by
    intro before a after split
    simp at split

theorem of_eq (remembers : r.Remembers capacity done) (state : other.state = r.state)
    (log : other.log = r.log) (replies : other.replies = r.replies) :
    other.Remembers capacity done where
  state := state.trans remembers.state
  log := log.trans remembers.log
  unheard := by
    rw [replies]
    exact remembers.unheard
  replied := by
    rw [replies]
    exact remembers.replied

/-- Executing a request adds it to the history. -/
theorem apply (remembers : r.Remembers capacity done) (a : AssignedRequest)
    (executedBy : NodeSet) :
    (r.apply a executedBy capacity).Remembers capacity
      (done ++ [{ request := a, executedBy := executedBy }]) where
  state := by
    rw [List.map_append, List.map_singleton, stateAfter_append_singleton, ← remembers.state]
    rfl
  log := by
    rw [← lastEntries_append_singleton, ← remembers.log]
    rfl
  unheard := by
    intro client absent
    rw [List.map_append, List.map_singleton, List.forall_mem_append] at absent
    have other : a.request.client ≠ client := absent.2 a (List.mem_singleton_self a)
    rw [Record.apply]
    dsimp only
    rw [getElem?_join_setReply, if_neg other]
    exact remembers.unheard client absent.1
  replied := by
    intro before b after split others
    rw [List.map_append, List.map_singleton] at split
    rw [Record.apply]
    dsimp only
    rw [getElem?_join_setReply]
    -- The request executed now stands behind all others, so those before it that count are of other
    -- clients.
    rcases List.eq_nil_or_concat after with rfl | ⟨rest, last, rfl⟩
    · obtain ⟨rfl, isLast⟩ := List.append_inj' split rfl
      obtain rfl := List.singleton_inj.mp isLast
      rw [if_pos rfl, stateAfter_append_singleton, remembers.state]
    · rw [List.concat_eq_append, ← List.cons_append, ← List.append_assoc] at split
      obtain ⟨earlier, isLast⟩ := List.append_inj' split rfl
      obtain rfl := List.singleton_inj.mp isLast
      simp only [List.concat_eq_append, List.forall_mem_append] at others
      rw [if_neg (others.2 a (List.mem_singleton_self a))]
      exact remembers.replied before b rest earlier others.1

end Remembers

namespace Remembers

theorem logged (remembers : r.Remembers capacity done) :
    r.logged = lastEntries capacity (done.map LogEntry.request) := by
  rw [Record.logged, remembers.log, map_lastEntries]

theorem genuine (remembers : r.Remembers capacity done) :
    r.Genuine capacity (done.map LogEntry.request) :=
  ⟨_, Nat.le_refl _, by rw [List.take_length, remembers.logged],
    by rw [List.take_length, remembers.state]⟩

variable (room : 0 < capacity) (numbered : Numbered (done.map LogEntry.request))
include room numbered

/-- The last executed request is the last one of the history. -/
theorem lastExec (remembers : r.Remembers capacity done) : r.lastExec = done.length := by
  have last := numbered.largestSeq_lastEntries_take room (Nat.le_refl _)
  rwa [List.take_length, ← remembers.logged, List.length_map] at last

omit room in
theorem logGaps (remembers : r.Remembers capacity done)
    (unsigned : done.length ≤ Json.maxUnsigned) : r.logGaps = false := by
  refine remembers.genuine.logGaps_eq_false numbered fun a shown => ?_
  have bounded := numbered.seq_le_length (remembers.genuine.mem_line shown)
  rw [List.length_map] at bounded
  exact Nat.le_trans bounded unsigned

end Remembers

/-! ### What waits -/

end Record

end QuorumList
