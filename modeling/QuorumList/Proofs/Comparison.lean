import Mathlib.Logic.Basic
import QuorumList.Proofs.History

/-!
Comparing histories.

Records are compared by their logs, and by their lists only where both have executed equally far.
For logs without gaps this says that no two entries of one number differ.  Records that are genuine
for one line always compare well; what a comparison with a genuine record says about an arbitrary
one is `Genuine.mem_line_of_consistentWith`: where both logs still hold a number, the arbitrary log
holds the request of the line.
-/
namespace QuorumList.Record

/-! ### Logs without gaps -/

/-- A log without gaps counts up from its first entry. -/
theorem map_seq_of_anyGap {a : AssignedRequest} {rest : List AssignedRequest}
    (noGap : anyGap (a :: rest) = false) :
    (a :: rest).map AssignedRequest.seq = List.range' a.seq (a :: rest).length := by
  induction rest generalizing a with
  | nil => rfl
  | cons b rest ih =>
      simp only [anyGap, Bool.or_eq_false_iff, decide_eq_false_iff_not, not_not] at noGap
      obtain ⟨⟨_, next⟩, noGap⟩ := noGap
      rw [List.map_cons, ih noGap, List.length_cons (a := a), List.range'_succ, next]

/-- Requests that count up have no gap, as long as their numbers have successors. -/
theorem anyGap_of_map_seq {requests : List AssignedRequest} {start : Nat}
    (counting : requests.map AssignedRequest.seq = List.range' start requests.length)
    (bounded : ∀ a ∈ requests, a.seq ≤ Json.maxUnsigned) : anyGap requests = false := by
  induction requests generalizing start with
  | nil => rfl
  | cons a rest ih =>
      rw [List.map_cons, List.length_cons, List.range'_succ, List.cons.injEq] at counting
      obtain ⟨first, counting⟩ := counting
      cases rest with
      | nil => rfl
      | cons b rest =>
          have noGap := ih counting fun c member => bounded c (by simp [member])
          rw [List.map_cons, List.length_cons, List.range'_succ, List.cons.injEq] at counting
          have bound := bounded b (by simp)
          simp only [anyGap, noGap, Bool.or_false, Bool.or_eq_false_iff, decide_eq_false_iff_not,
            not_not]
          omega

theorem pairwise_seq_of_map_seq {requests : List AssignedRequest} {start : Nat}
    (counting : requests.map AssignedRequest.seq = List.range' start requests.length) :
    requests.Pairwise fun a b => a.seq < b.seq := by
  rw [← List.pairwise_map, counting]
  exact List.pairwise_lt_range'

theorem eq_of_seq_eq_of_pairwise {requests : List AssignedRequest}
    (rising : requests.Pairwise fun a b => a.seq < b.seq) {a b : AssignedRequest}
    (ofA : a ∈ requests) (ofB : b ∈ requests) (same : a.seq = b.seq) : a = b := by
  obtain ⟨i, inI, rfl⟩ := List.mem_iff_getElem.mp ofA
  obtain ⟨j, inJ, rfl⟩ := List.mem_iff_getElem.mp ofB
  rcases Nat.lt_trichotomy i j with less | rfl | more
  · have := List.pairwise_iff_getElem.mp rising i j inI inJ less
    omega
  · rfl
  · have := List.pairwise_iff_getElem.mp rising j i inJ inI more
    omega

/-- The entries of a log without gaps have different numbers. -/
theorem pairwise_seq_of_logGaps {r : Record} (noGap : r.logGaps = false) :
    r.logged.Pairwise fun a b => a.seq < b.seq := by
  rw [logGaps] at noGap
  cases entries : r.logged with
  | nil => exact .nil
  | cons a rest =>
      rw [entries] at noGap
      exact pairwise_seq_of_map_seq (map_seq_of_anyGap noGap)

/-! ### Agreement of logs -/

/-- Logs agree when they never show different requests under one number. -/
theorem agreesWith_iff {r other : Record}
    (distinct : other.logged.Pairwise fun a b => a.seq < b.seq) :
    r.agreesWith other = true ↔
      ∀ a ∈ r.logged, ∀ b ∈ other.logged, a.seq = b.seq → a = b := by
  rw [agreesWith, List.all_eq_true]
  constructor
  · intro agrees a ofA b ofB same
    obtain ⟨e, ofE, rfl⟩ := List.mem_map.mp ofA
    have agreed := agrees e ofE
    cases found : other.log.find? (fun o => o.request.seq = e.request.seq) with
    | none =>
        obtain ⟨o, ofO, rfl⟩ := List.mem_map.mp ofB
        have absent := List.find?_eq_none.mp found o ofO
        simp [same] at absent
    | some o =>
        have shown := List.mem_of_find?_eq_some found
        have number := List.find?_some found
        rw [found] at agreed
        simp only [decide_eq_true_eq] at agreed number
        exact agreed ▸ eq_of_seq_eq_of_pairwise distinct (List.mem_map_of_mem shown) ofB
          (number.trans same)
  · intro agrees e ofE
    cases found : other.log.find? (fun o => o.request.seq = e.request.seq) with
    | none => rfl
    | some o =>
        have shown := List.mem_of_find?_eq_some found
        have number := List.find?_some found
        simp only [decide_eq_true_eq] at number ⊢
        exact (agrees e.request (List.mem_map_of_mem ofE) o.request (List.mem_map_of_mem shown)
          number.symm).symm

/-! ### Comparing genuine records -/

namespace Genuine

variable {capacity : Nat} {line : List AssignedRequest} {r other : Record}

theorem logGaps_eq_false (numbered : Numbered line) (genuine : Genuine capacity line r)
    (bounded : ∀ a ∈ r.logged, a.seq ≤ Json.maxUnsigned) : r.logGaps = false := by
  obtain ⟨n, reached, log, _⟩ := genuine
  have counting := numbered.map_seq_lastEntries_take reached capacity
  rw [← log] at counting
  have length := congrArg List.length counting
  rw [List.length_map, List.length_range'] at length
  rw [← length] at counting
  exact anyGap_of_map_seq counting bounded

theorem pairwise_seq (numbered : Numbered line) (genuine : Genuine capacity line r) :
    r.logged.Pairwise fun a b => a.seq < b.seq := by
  obtain ⟨n, _, log, _⟩ := genuine
  rw [log, lastEntries]
  exact (pairwise_seq_of_map_seq (numbered.take n)).drop

theorem agreesWith (numbered : Numbered line) (genuine : Genuine capacity line r)
    (genuineOther : Genuine capacity line other) : r.agreesWith other = true :=
  (agreesWith_iff (genuineOther.pairwise_seq numbered)).mpr fun _ ofR _ ofOther same =>
    numbered.eq_of_seq_eq (genuine.mem_line ofR) (genuineOther.mem_line ofOther) same

/-- Of two genuine records the one that has executed no more precedes the other. -/
theorem precedes (room : 0 < capacity) (numbered : Numbered line)
    (genuine : Genuine capacity line r) (genuineOther : Genuine capacity line other)
    (behind : r.lastExec ≤ other.lastExec) : r.precedes other = true := by
  have agrees := genuine.agreesWith numbered genuineOther
  have state := (genuine.upTo_lastExec room numbered).2.2
  have stateOther := (genuineOther.upTo_lastExec room numbered).2.2
  rw [Record.precedes, agrees]
  cases Nat.lt_or_eq_of_le behind with
  | inl less => simp [behind, less]
  | inr same => simp [state, stateOther, same]

theorem consistentWith (room : 0 < capacity) (numbered : Numbered line)
    (genuine : Genuine capacity line r) (genuineOther : Genuine capacity line other) :
    r.consistentWith other = true := by
  rw [Record.consistentWith, Bool.or_eq_true]
  cases Nat.le_total r.lastExec other.lastExec with
  | inl behind => exact .inl (genuine.precedes room numbered genuineOther behind)
  | inr ahead => exact .inr (genuineOther.precedes room numbered genuine ahead)

/-- A log that is consistent with a genuine one shows the requests of the line, as far as the
genuine log still reaches. -/
theorem mem_line_of_consistentWith (room : 0 < capacity) (numbered : Numbered line)
    (genuine : Genuine capacity line r) (noGap : other.logGaps = false)
    (consistent : r.consistentWith other = true) {a : AssignedRequest}
    (shown : a ∈ other.logged) (positive : 1 ≤ a.seq) (reached : a.seq ≤ r.lastExec)
    (recent : r.lastExec < a.seq + capacity) : a ∈ line := by
  have executed : a.seq ≤ line.length :=
    Nat.le_trans reached (genuine.upTo_lastExec room numbered).1
  obtain ⟨b, inLine, number⟩ := numbered.exists_seq_eq positive executed
  have held : b ∈ r.logged :=
    (genuine.mem_logged_iff room numbered).mpr ⟨inLine, by omega, by omega⟩
  have same : b = a := by
    rw [Record.consistentWith, Bool.or_eq_true] at consistent
    simp only [Record.precedes, Bool.and_eq_true] at consistent
    -- Either record may be the one behind, but logs are compared the same way.
    rcases consistent with ⟨⟨_, agrees⟩, _⟩ | ⟨⟨_, agrees⟩, _⟩
    · exact (agreesWith_iff (pairwise_seq_of_logGaps noGap)).mp agrees _ held _ shown number
    · exact ((agreesWith_iff (genuine.pairwise_seq numbered)).mp agrees _ shown _ held
        number.symm).symm
  exact same ▸ inLine

end Genuine

/-- Consistent records that have executed equally far hold the same list. -/
theorem state_eq_of_consistentWith {r other : Record} (consistent : r.consistentWith other = true)
    (same : r.lastExec = other.lastExec) : r.state = other.state := by
  simp only [consistentWith, precedes, same, Nat.lt_irrefl, decide_false, Bool.false_or,
    Bool.or_eq_true, Bool.and_eq_true, decide_eq_true_eq] at consistent
  rcases consistent with ⟨_, equal⟩ | ⟨_, equal⟩
  · exact equal
  · exact equal.symm

end QuorumList.Record
