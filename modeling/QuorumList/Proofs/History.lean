import QuorumList.Agreement.Round

/-!
Genuine histories.

A *line* is a sequence of assigned requests, numbered from one on.  A record is genuine for a line
when its log shows the end of a beginning of the line, cut to the length of a log, and its list is
what the requests of that beginning make of the empty list.  Two records that are genuine for one
line are consistent with each other, and the one that has executed less precedes the other.

The beginning is found again as the requests up to the last executed one, as long as a log keeps any
entry at all.
-/
namespace QuorumList

/-- The requests of a line are numbered from one on. -/
def Numbered (line : List AssignedRequest) : Prop :=
  line.map AssignedRequest.seq = List.range' 1 line.length

instance (line : List AssignedRequest) : Decidable (Numbered line) :=
  inferInstanceAs (Decidable (_ = _))

/-- The list that the requests of a line make of the empty list. -/
def stateAfter (line : List AssignedRequest) : List Int :=
  line.foldl (fun state a => a.request.operation.apply state) []

theorem stateAfter_append_singleton (line : List AssignedRequest) (a : AssignedRequest) :
    stateAfter (line ++ [a]) = a.request.operation.apply (stateAfter line) := by
  simp [stateAfter]

/-! ### Largest sequence numbers -/

namespace Record

theorem largestSeq_cons (a : AssignedRequest) (requests : List AssignedRequest) :
    largestSeq (a :: requests) = max a.seq (largestSeq requests) := by
  have from_any : ∀ (l : List Nat) (n : Nat), l.foldl max n = max n (l.foldl max 0) := by
    intro l
    induction l with
    | nil => simp
    | cons head rest ih =>
        intro n
        rw [List.foldl_cons, List.foldl_cons, ih, ih (max 0 head)]
        omega
  rw [largestSeq, List.map_cons, List.foldl_cons, from_any, largestSeq]
  omega

theorem seq_le_largestSeq {a : AssignedRequest} {requests : List AssignedRequest}
    (member : a ∈ requests) : a.seq ≤ largestSeq requests := by
  induction requests with
  | nil => simp at member
  | cons head rest ih =>
      rw [largestSeq_cons]
      rcases List.mem_cons.mp member with rfl | inRest
      · omega
      · have := ih inRest
        omega

theorem largestSeq_le {requests : List AssignedRequest} {bound : Nat}
    (below : ∀ a ∈ requests, a.seq ≤ bound) : largestSeq requests ≤ bound := by
  induction requests with
  | nil => simp [largestSeq]
  | cons head rest ih =>
      rw [largestSeq_cons]
      have first := below head (by simp)
      have others := ih fun a member => below a (by simp [member])
      omega

theorem mem_lastEntries {α : Type} {capacity : Nat} {l : List α} {x : α}
    (member : x ∈ lastEntries capacity l) : x ∈ l :=
  List.mem_of_mem_drop member

@[simp] theorem lastEntries_nil {α : Type} (capacity : Nat) :
    lastEntries capacity ([] : List α) = [] := by
  simp [lastEntries]

theorem map_lastEntries {α β : Type} (f : α → β) (capacity : Nat) (l : List α) :
    (lastEntries capacity l).map f = lastEntries capacity (l.map f) := by
  simp [lastEntries]

@[simp] theorem lastEntries_lastEntries {α : Type} (capacity : Nat) (l : List α) :
    lastEntries capacity (lastEntries capacity l) = lastEntries capacity l := by
  have short : (l.drop (l.length - capacity)).length - capacity = 0 := by
    simp only [List.length_drop]
    omega
  simp only [lastEntries, short, List.drop_zero]

/-- Adding an entry to what a log keeps shows the same as adding it to the whole list. -/
theorem lastEntries_append_singleton {α : Type} (capacity : Nat) (l : List α) (x : α) :
    lastEntries capacity (lastEntries capacity l ++ [x]) = lastEntries capacity (l ++ [x]) := by
  have start : (lastEntries capacity l ++ [x]) = (l ++ [x]).drop (l.length - capacity) := by
    rw [List.drop_append_of_le_length (by omega), lastEntries]
  rw [start, lastEntries, lastEntries, List.drop_drop, List.length_drop]
  congr 1
  simp only [List.length_append, List.length_cons, List.length_nil]
  omega

theorem logged_apply (r : Record) (a : AssignedRequest) (executedBy : NodeSet) (capacity : Nat) :
    (r.apply a executedBy capacity).logged = lastEntries capacity (r.logged ++ [a]) := by
  rw [logged, Record.apply, map_lastEntries, List.map_append]
  rfl

/-- Executing the next request counts one further. -/
theorem lastExec_apply {capacity : Nat} (room : 0 < capacity) {r : Record} {a : AssignedRequest}
    (next : a.seq = r.lastExec + 1) (executedBy : NodeSet) :
    (r.apply a executedBy capacity).lastExec = r.lastExec + 1 := by
  rw [lastExec, logged_apply]
  apply Nat.le_antisymm
  · refine largestSeq_le fun b member => ?_
    rcases List.mem_append.mp (mem_lastEntries member) with old | new
    · exact Nat.le_succ_of_le (seq_le_largestSeq old)
    · exact Nat.le_of_eq (by rw [List.mem_singleton.mp new, next])
  · have short : (r.logged ++ [a]).length - capacity ≤ r.logged.length := by
      rw [List.length_append, List.length_singleton]
      omega
    have kept : a ∈ lastEntries capacity (r.logged ++ [a]) := by
      rw [lastEntries, List.drop_append_of_le_length short]
      exact List.mem_append_right _ (List.mem_singleton_self a)
    exact next ▸ seq_le_largestSeq kept

end Record

/-! ### Numbered lines -/

namespace Numbered

variable {requests : List AssignedRequest} {a b : AssignedRequest}

theorem nil : Numbered [] := rfl

theorem append (numbered : Numbered requests) {more : List AssignedRequest}
    (counting : more.map AssignedRequest.seq = List.range' (requests.length + 1) more.length) :
    Numbered (requests ++ more) := by
  rw [Numbered, List.map_append, numbered, counting, List.length_append, ← List.range'_append_1,
    Nat.add_comm 1]

theorem take (numbered : Numbered requests) (n : Nat) : Numbered (requests.take n) := by
  rw [Numbered, List.map_take, numbered, List.length_take]
  cases Nat.le_total n requests.length with
  | inl short => rw [List.take_range'_of_length_ge short, Nat.min_eq_left short]
  | inr long => rw [List.take_range'_of_length_le long, Nat.min_eq_right long]

theorem seq_getElem (numbered : Numbered requests) {i : Nat} (inList : i < requests.length) :
    requests[i].seq = i + 1 := by
  have same : (requests.map AssignedRequest.seq)[i]? = (List.range' 1 requests.length)[i]? :=
    congrArg (fun seqs => seqs[i]?) numbered
  simp [inList] at same
  omega

/-- A line has a request for each number up to its length. -/
theorem exists_seq_eq (numbered : Numbered requests) {n : Nat} (positive : 1 ≤ n)
    (reached : n ≤ requests.length) : ∃ a ∈ requests, a.seq = n := by
  have inList : n - 1 < requests.length := by omega
  refine ⟨requests[n - 1], List.getElem_mem inList, ?_⟩
  rw [numbered.seq_getElem inList]
  omega

/-- A request of a line stands where its number says. -/
theorem getElem?_of_mem (numbered : Numbered requests) (member : a ∈ requests) :
    1 ≤ a.seq ∧ requests[a.seq - 1]? = some a := by
  obtain ⟨i, inList, rfl⟩ := List.mem_iff_getElem.mp member
  rw [numbered.seq_getElem inList]
  simp [inList]

theorem seq_le_length (numbered : Numbered requests) (member : a ∈ requests) :
    a.seq ≤ requests.length := by
  obtain ⟨pos, found⟩ := numbered.getElem?_of_mem member
  have := (List.getElem?_eq_some_iff.mp found).1
  omega

theorem eq_of_seq_eq (numbered : Numbered requests) (ofA : a ∈ requests) (ofB : b ∈ requests)
    (same : a.seq = b.seq) : a = b := by
  have foundA := (numbered.getElem?_of_mem ofA).2
  have foundB := (numbered.getElem?_of_mem ofB).2
  rw [same, foundB] at foundA
  exact (Option.some.inj foundA).symm

theorem mem_take_iff (numbered : Numbered requests) (n : Nat) :
    a ∈ requests.take n ↔ a ∈ requests ∧ a.seq ≤ n := by
  constructor
  · intro member
    have bounded := (numbered.take n).seq_le_length member
    rw [List.length_take] at bounded
    exact ⟨List.mem_of_mem_take member, by omega⟩
  · rintro ⟨member, bounded⟩
    obtain ⟨pos, found⟩ := numbered.getElem?_of_mem member
    refine List.mem_of_getElem? (i := a.seq - 1) ?_
    rw [List.getElem?_take_of_lt (by omega), found]

/-- What a log shows of the first `n` requests: those numbered up to `n` that are not too old. -/
theorem mem_lastEntries_take_iff (numbered : Numbered requests) {n capacity : Nat}
    (reached : n ≤ requests.length) :
    a ∈ Record.lastEntries capacity (requests.take n) ↔
      a ∈ requests ∧ a.seq ≤ n ∧ n < a.seq + capacity := by
  have length : (requests.take n).length = n := by
    rw [List.length_take]
    omega
  rw [Record.lastEntries, length]
  constructor
  · intro member
    obtain ⟨inList, bounded⟩ := (numbered.mem_take_iff n).mp (List.mem_of_mem_drop member)
    obtain ⟨i, inDrop, found⟩ := List.mem_iff_getElem.mp member
    rw [List.length_drop, length] at inDrop
    rw [List.getElem_drop, List.getElem_take] at found
    have position := numbered.seq_getElem (i := n - capacity + i) (by omega)
    rw [found] at position
    exact ⟨inList, bounded, by omega⟩
  · rintro ⟨member, bounded, recent⟩
    obtain ⟨pos, found⟩ := numbered.getElem?_of_mem member
    refine List.mem_of_getElem? (i := a.seq - 1 - (n - capacity)) ?_
    rw [List.getElem?_drop, List.getElem?_take_of_lt (by omega)]
    rw [show n - capacity + (a.seq - 1 - (n - capacity)) = a.seq - 1 by omega, found]

/-- What a log shows of the first `n` requests counts up to `n`. -/
theorem map_seq_lastEntries_take (numbered : Numbered requests) {n : Nat}
    (reached : n ≤ requests.length) (capacity : Nat) :
    (Record.lastEntries capacity (requests.take n)).map AssignedRequest.seq =
      List.range' (n + 1 - min n capacity) (min n capacity) := by
  have length : (requests.take n).length = n := by
    rw [List.length_take]
    omega
  rw [Record.map_lastEntries, numbered.take n, length, Record.lastEntries, List.length_range',
    List.drop_range']
  congr 1 <;> omega

/-- The last request that a log shows is the last one of the beginning. -/
theorem largestSeq_lastEntries_take (numbered : Numbered requests) {n capacity : Nat}
    (room : 0 < capacity) (reached : n ≤ requests.length) :
    Record.largestSeq (Record.lastEntries capacity (requests.take n)) = n := by
  apply Nat.le_antisymm
  · exact Record.largestSeq_le fun a member =>
      ((numbered.mem_lastEntries_take_iff reached).mp member).2.1
  · cases n with
    | zero => omega
    | succ m =>
        obtain ⟨a, inList, number⟩ := numbered.exists_seq_eq (by omega) reached
        have shown : a ∈ Record.lastEntries capacity (requests.take (m + 1)) :=
          (numbered.mem_lastEntries_take_iff reached).mpr ⟨inList, by omega, by omega⟩
        have := Record.seq_le_largestSeq shown
        omega

end Numbered

/-! ### Genuine records -/

namespace Record

/-- The log holds the last requests of a beginning of the line, as many as a log keeps, and the list
is the result of that beginning. -/
def Genuine (capacity : Nat) (line : List AssignedRequest) (r : Record) : Prop :=
  ∃ n, n ≤ line.length ∧
    r.logged = lastEntries capacity (line.take n) ∧ r.state = stateAfter (line.take n)

instance (capacity : Nat) (line : List AssignedRequest) (r : Record) :
    Decidable (Genuine capacity line r) :=
  inferInstanceAs (Decidable (∃ n, n ≤ line.length ∧ _))

namespace Genuine

variable {capacity : Nat} {line : List AssignedRequest} {r other : Record}

theorem of_empty (emptyLog : r.log = []) (emptyState : r.state = []) : Genuine capacity line r :=
  ⟨0, Nat.zero_le _, by simp [logged, emptyLog], by simp [emptyState, stateAfter]⟩

/-- Only the history of a record counts. -/
theorem congr (genuine : Genuine capacity line r) (sameLog : other.logged = r.logged)
    (sameState : other.state = r.state) : Genuine capacity line other := by
  obtain ⟨n, reached, log, state⟩ := genuine
  exact ⟨n, reached, sameLog.trans log, sameState.trans state⟩

/-- The beginning is the one up to the last executed request. -/
theorem upTo_lastExec (room : 0 < capacity) (numbered : Numbered line)
    (genuine : Genuine capacity line r) :
    r.lastExec ≤ line.length ∧ r.logged = lastEntries capacity (line.take r.lastExec) ∧
      r.state = stateAfter (line.take r.lastExec) := by
  obtain ⟨n, reached, log, state⟩ := genuine
  have last : r.lastExec = n := by
    rw [lastExec, log, numbered.largestSeq_lastEntries_take room reached]
  rw [last]
  exact ⟨reached, log, state⟩

/-- The log is a block of consecutive numbers that ends with the last executed request. -/
theorem map_seq_logged (room : 0 < capacity) (numbered : Numbered line)
    (genuine : Genuine capacity line r) :
    r.logged.map AssignedRequest.seq =
      List.range' (r.lastExec + 1 - r.log.length) r.log.length := by
  obtain ⟨reached, log, _⟩ := genuine.upTo_lastExec room numbered
  have counting := numbered.map_seq_lastEntries_take reached capacity
  rw [← log] at counting
  have length := congrArg List.length counting
  simp only [logged, List.length_map, List.length_range'] at length
  rw [counting, length]

theorem mem_logged_iff (room : 0 < capacity) (numbered : Numbered line)
    (genuine : Genuine capacity line r) {a : AssignedRequest} :
    a ∈ r.logged ↔ a ∈ line ∧ a.seq ≤ r.lastExec ∧ r.lastExec < a.seq + capacity := by
  obtain ⟨reached, log, _⟩ := genuine.upTo_lastExec room numbered
  rw [log]
  exact numbered.mem_lastEntries_take_iff reached

theorem mem_line (genuine : Genuine capacity line r) {a : AssignedRequest}
    (shown : a ∈ r.logged) : a ∈ line := by
  obtain ⟨n, _, log, _⟩ := genuine
  rw [log] at shown
  exact List.mem_of_mem_take (mem_lastEntries shown)

/-- A longer line has the same beginnings. -/
theorem append (genuine : Genuine capacity line r) (more : List AssignedRequest) :
    Genuine capacity (line ++ more) r := by
  obtain ⟨n, reached, log, state⟩ := genuine
  refine ⟨n, by rw [List.length_append]; omega, ?_, ?_⟩
  · rw [List.take_append_of_le_length reached, log]
  · rw [List.take_append_of_le_length reached, state]

/-- Executing the request that the line has next keeps a record genuine. -/
theorem apply (room : 0 < capacity) (numbered : Numbered line) (genuine : Genuine capacity line r)
    {a : AssignedRequest} (inLine : a ∈ line) (next : a.seq = r.lastExec + 1)
    (executedBy : NodeSet) : Genuine capacity line (r.apply a executedBy capacity) := by
  obtain ⟨reached, log, state⟩ := genuine.upTo_lastExec room numbered
  obtain ⟨_, found⟩ := numbered.getElem?_of_mem inLine
  rw [next, Nat.add_sub_cancel] at found
  obtain ⟨below, here⟩ := List.getElem?_eq_some_iff.mp found
  have longer : line.take (r.lastExec + 1) = line.take r.lastExec ++ [a] := by
    rw [List.take_succ_eq_append_getElem below, here]
  refine ⟨r.lastExec + 1, below, ?_, ?_⟩
  · calc (r.apply a executedBy capacity).logged
        = lastEntries capacity (r.logged ++ [a]) := logged_apply ..
      _ = lastEntries capacity (line.take (r.lastExec + 1)) := by
          rw [log, lastEntries_append_singleton, longer]
  · calc (r.apply a executedBy capacity).state
        = a.request.operation.apply r.state := rfl
      _ = stateAfter (line.take (r.lastExec + 1)) := by
          rw [state, longer, stateAfter_append_singleton]

end Genuine

end Record

end QuorumList
