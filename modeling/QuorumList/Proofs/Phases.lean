import QuorumList.Agreement.Round

/-!
The phases of a round.

A round that acts in a view enters the view, flushes a corrupt record, adopts the common history,
moves requests on and tidies up.  Each phase changes the own record only, so a property of all
records of the table is carried over as soon as the new own record has it.

Where a replica stands in a view, and which number it gave out last, changes only when it enters the
view and when it assigns.
-/
namespace QuorumList

/-- The view of a record, whether it waits for the primary, and the last number given out. -/
def Record.stance (r : Record) : View × Bool × Nat :=
  (r.view, r.viewChanged, r.seq)

namespace Agreement

variable {site : Site} {s : Agreement}

/-! ### Changing the own record -/

theorem recordOf_mem {k : NodeId} (inTable : k < s.records.length) :
    s.recordOf k ∈ s.records := by
  simp [recordOf, inTable]

theorem recordOf_eq_blank {k : NodeId} (outside : s.records.length ≤ k) :
    s.recordOf k = .blank := by
  simp [recordOf, outside]

theorem updateOwn_of_outside (outside : s.records.length ≤ site.me) (f : Record → Record) :
    s.updateOwn site f = s := by
  rw [updateOwn, List.modify_eq_self outside]

/-- What holds of all records still does after a change that keeps it true of the own record. -/
theorem forall_updateOwn {P : Record → Prop} {f : Record → Record}
    (all : ∀ r ∈ s.records, P r) (changed : P (s.own site) → P (f (s.own site))) :
    ∀ r ∈ (s.updateOwn site f).records, P r := by
  intro r member
  obtain ⟨k, inTable, rfl⟩ := List.mem_iff_getElem.mp member
  have inOld : k < s.records.length := by simpa [updateOwn] using inTable
  simp only [updateOwn, List.getElem_modify]
  split
  · next isMe =>
      have same : s.own site = s.records[k] := by simp [own, recordOf, isMe, inOld]
      rw [same] at changed
      exact changed (all _ (List.getElem_mem inOld))
  · exact all _ (List.getElem_mem inOld)

/-- What a change keeps of every record it keeps of the own one. -/
theorem apply_own_updateOwn {α : Type} (g : Record → α) {f : Record → Record}
    (keeps : ∀ r, g (f r) = g r) : g ((s.updateOwn site f).own site) = g (s.own site) := by
  by_cases inTable : site.me < s.records.length
  · rw [own_updateOwn inTable, keeps]
  · rw [updateOwn_of_outside (Nat.le_of_not_lt inTable)]

theorem stance_own_updateOwn {f : Record → Record}
    (keeps : ∀ r, (f r).stance = r.stance) :
    ((s.updateOwn site f).own site).stance = (s.own site).stance :=
  apply_own_updateOwn Record.stance keeps

/-! ### Entering a view -/

/-- Follow the reported view, and work on the change to it. -/
def enterView (site : Site) (view : View) (primary : NodeId) (s : Agreement) : Agreement :=
  let s := s.trackView site view
  if (s.own site).viewChanged then s.changeView site view primary else s

/-- The own record has to go. -/
def mustFlush (site : Site) (s : Agreement) : Bool :=
  !site.switches.nonSelfStab && (s.conflict site || s.corrupt site)

/-- What a round does once it has entered the view and need not flush. -/
def proceed (site : Site) (answers : Answers) (view : View) (primary : NodeId) (s : Agreement) :
    Agreement × Nat :=
  let s := s.findCommonHistory site
  let (s, executed) :=
    if (s.own site).viewChanged then (s, 0) else s.agree site answers view primary
  (s.tidy site view, executed)

theorem actIn_eq (answers : Answers) (view : View) (primary : NodeId) :
    s.actIn site answers view primary =
      if (s.enterView site view primary).mustFlush site then
        { s.enterView site view primary with needFlush := true }.flushNow site
      else
        { state := ((s.enterView site view primary).proceed site answers view primary).1
          directives := []
          events := List.replicate
            ((s.enterView site view primary).proceed site answers view primary).2
            .requestCommitted } := rfl

/-- Honour a flush that was asked for. -/
def honourFlush (site : Site) (s : Agreement) : Agreement :=
  if s.flush then { s.flushOwn site with flush := false } else s

theorem state_round (answers : Answers) :
    (s.round site answers).state =
      match answers.viewOf site.me with
      | .tee => s.honourFlush site
      | .id primary => ((s.honourFlush site).actIn site answers (.id primary) primary).state := by
  unfold round
  cases answers.viewOf site.me <;> rfl

/-- A round that acts in a view and need not flush enters the view and goes on. -/
theorem state_round_of_calm {answers : Answers} {primary : NodeId}
    (seen : answers.viewOf site.me = .id primary) (quiet : s.flush = false)
    (calm : (s.enterView site (.id primary) primary).mustFlush site = false) :
    (s.round site answers).state =
      ((s.enterView site (.id primary) primary).proceed site answers (.id primary) primary).1 := by
  have honoured : s.honourFlush site = s := by
    rw [honourFlush, quiet]
    rfl
  rw [state_round, seen]
  dsimp only
  rw [honoured, actIn_eq, calm]
  rfl

theorem events_round (answers : Answers) :
    (s.round site answers).events =
      (if s.flush then [Event.localFlush] else []) ++
        match answers.viewOf site.me with
        | .tee => []
        | .id primary =>
            ((s.honourFlush site).actIn site answers (.id primary) primary).events := by
  unfold round
  cases answers.viewOf site.me with
  | tee => exact (List.append_nil _).symm
  | id primary => rfl

/-- A round counts a flush that was asked for, and one of a record that has to go once it has
entered the view. -/
theorem localFlush_mem_events_round {answers : Answers} :
    .localFlush ∈ (s.round site answers).events ↔
      s.flush = true ∨ ∃ primary, answers.viewOf site.me = .id primary ∧
        ((s.honourFlush site).enterView site (.id primary) primary).mustFlush site = true := by
  rw [events_round, List.mem_append]
  refine or_congr (by cases s.flush <;> simp) ?_
  cases answers.viewOf site.me with
  | tee => simp
  | id primary =>
      simp only [View.id.injEq, exists_eq_left']
      rw [actIn_eq]
      cases ((s.honourFlush site).enterView site (.id primary) primary).mustFlush site with
      | true => simp [flushNow]
      | false => simp

/-! ### Assigning and accepting -/

/-- Requests with the numbers behind `seq`. -/
def numberBehind (view : View) (seq : Nat) (requests : List ClientRequest) :
    List AssignedRequest :=
  requests.mapIdx fun i q => { request := q, view := view, seq := seq + i + 1 }

@[simp] theorem length_numberBehind (view : View) (seq : Nat) (requests : List ClientRequest) :
    (numberBehind view seq requests).length = requests.length := by
  simp [numberBehind]

theorem map_seq_numberBehind (view : View) (seq : Nat) (requests : List ClientRequest) :
    (numberBehind view seq requests).map AssignedRequest.seq =
      List.range' (seq + 1) requests.length := by
  apply List.ext_getElem
  · simp
  · intro i _ _
    simp only [numberBehind, List.getElem_map, List.getElem_mapIdx, List.getElem_range']
    omega

theorem map_request_numberBehind (view : View) (seq : Nat) (requests : List ClientRequest) :
    (numberBehind view seq requests).map AssignedRequest.request = requests := by
  apply List.ext_getElem
  · simp
  · intro i _ _
    simp [numberBehind]

theorem view_of_mem_numberBehind {view : View} {seq : Nat} {requests : List ClientRequest}
    {a : AssignedRequest} (member : a ∈ numberBehind view seq requests) : a.view = view := by
  obtain ⟨i, _, rfl⟩ := List.mem_mapIdx.mp member
  rfl

/-- The queue entry of a request that has just been prepared. -/
def preparedEntry (a : AssignedRequest) : QueueEntry :=
  { request := a, status := .prepared }

/-- The primary numbers as many requests as there is room for below the limit. -/
theorem assignBehind_eq (view : View) (limit seq : Nat) (requests : List ClientRequest) :
    assignBehind view limit seq requests =
      ((numberBehind view seq (requests.take (limit - seq))).map preparedEntry,
        seq + (requests.take (limit - seq)).length) := by
  induction requests generalizing seq with
  | nil => simp [assignBehind, numberBehind]
  | cons q rest ih =>
      unfold assignBehind
      split
      · next full => simp [numberBehind, Nat.sub_eq_zero_of_le full]
      · next room =>
          obtain ⟨more, left⟩ : ∃ more, limit - seq = more + 1 := ⟨limit - seq - 1, by omega⟩
          have next : limit - (seq + 1) = more := by omega
          have shift : ∀ i, seq + 1 + i + 1 = seq + (i + 1) + 1 := fun i => by omega
          simp only [ih, left, next, List.take_succ_cons, numberBehind, List.mapIdx_cons,
            List.map_cons, List.length_cons, Prod.mk.injEq, shift]
          exact ⟨rfl, by omega⟩

/-- The requests that the primary gives the next numbers to. -/
def assignments (site : Site) (view : View) (s : Agreement) : List AssignedRequest :=
  let own := s.own site
  let start := max own.seq own.lastExec
  numberBehind view start ((s.unassigned site view).take (windowEnd site own.lastExec - start))

theorem map_seq_assignments (site : Site) (view : View) (s : Agreement) :
    (s.assignments site view).map AssignedRequest.seq =
      List.range' (max (s.own site).seq (s.own site).lastExec + 1)
        (s.assignments site view).length := by
  rw [assignments, map_seq_numberBehind, length_numberBehind]

theorem mem_assignments {view : View} {a : AssignedRequest}
    (numbered : a ∈ s.assignments site view) :
    max (s.own site).seq (s.own site).lastExec < a.seq ∧
      a.seq ≤ max (s.own site).seq (s.own site).lastExec + (s.assignments site view).length := by
  have position := List.mem_map_of_mem (f := AssignedRequest.seq) numbered
  rw [map_seq_assignments, List.mem_range'_1] at position
  omega

/-- The numbers that are given out fit into the window. -/
theorem length_assignments_le (site : Site) (view : View) (s : Agreement) :
    (s.assignments site view).length ≤
      windowEnd site (s.own site).lastExec - max (s.own site).seq (s.own site).lastExec := by
  rw [assignments, length_numberBehind]
  exact List.length_take_le ..

/-- The requests that are assigned are unassigned ones, in their order. -/
theorem map_request_assignments (site : Site) (view : View) (s : Agreement) :
    ((s.assignments site view).map AssignedRequest.request).Sublist (s.unassigned site view) := by
  rw [assignments, map_request_numberBehind]
  exact List.take_sublist ..

theorem assign_eq (inTable : site.me < s.records.length) (view : View) :
    s.assign site view = s.updateOwn site fun r =>
      { r with
        queue := r.queue ++ (s.assignments site view).map preparedEntry
        seq := max r.seq r.lastExec + (s.assignments site view).length } := by
  have same : s.records[site.me] = s.own site := by simp [own, recordOf, inTable]
  simp only [assign, updateOwn, assignBehind_eq, assignments, length_numberBehind]
  rw [List.modify_eq_set, List.modify_eq_set]
  simp [inTable, same]

/-- The requests that a round assigns once it has entered the view and need not flush. -/
def proceedAssigns (site : Site) (answers : Answers) (view : View) (primary : NodeId)
    (s : Agreement) : List AssignedRequest :=
  let s := s.findCommonHistory site
  if !(s.own site).viewChanged && (primary = site.me && mayAssign site answers) then
    s.assignments site view
  else []

/-- The requests that a round assigns. -/
def roundAssigns (site : Site) (answers : Answers) (s : Agreement) : List AssignedRequest :=
  match answers.viewOf site.me with
  | .tee => []
  | .id primary =>
      let s := (s.honourFlush site).enterView site (.id primary) primary
      if s.mustFlush site then [] else s.proceedAssigns site answers (.id primary) primary

/-- The replica becomes the primary of a new view in this round. -/
def roundLeads (site : Site) (answers : Answers) (s : Agreement) : Bool :=
  match answers.viewOf site.me with
  | .tee => false
  | .id primary =>
      let s := (s.honourFlush site).trackView site (.id primary)
      primary = site.me && (s.own site).viewChanged &&
        site.cluster.establishQuorum ≤ s.readyFor (.id primary)

/-- The last number that the replica has executed when a round enters the view. -/
def roundStart (site : Site) (s : Agreement) : Nat :=
  ((s.honourFlush site).own site).lastExec

/-- What a follower has checked about a proposal that it takes in. -/
theorem acceptsProposal_iff {view : View} {a : AssignedRequest} {r : Record} :
    acceptsProposal site view a r = true ↔
      a.view = view ∧
        (r.lastExec < a.seq ∧ a.seq < site.cluster.seqLimit ∧ a.seq ≤ windowEnd site r.lastExec) ∧
        (∀ e ∈ r.queue, e.request.request.sameOrigin a.request = false ∧
          ¬(e.request.view = a.view ∧ e.request.seq = a.seq)) ∧
        r.executed a.request = false := by
  simp only [acceptsProposal, Bool.and_eq_true, Bool.not_eq_true', List.any_eq_false,
    Bool.or_eq_true, not_or, Bool.not_eq_true, decide_eq_true_eq, and_assoc]

/-- What taking in one proposal of the primary carries over is carried over by all of them. -/
theorem acceptProposals_induction {P : Record → Prop} {view : View} {primary : NodeId}
    (step : ∀ r, ∀ a ∈ (s.recordOf primary).queued, P r → P (acceptOne site view r a))
    (r : Record) (start : P r) :
    P ((((s.recordOf primary).queue.filter fun e =>
      e.status.has .prePrep).map QueueEntry.request).foldl (acceptOne site view) r) := by
  refine List.foldlRecOn _ _ start fun r holds a proposed => step r a ?_ holds
  obtain ⟨e, member, rfl⟩ := List.mem_map.mp proposed
  exact List.mem_map_of_mem (List.mem_filter.mp member).1

/-- Collecting statuses leaves the requests of a queue alone. -/
theorem map_request_status (queue : List QueueEntry) (chosen : QueueEntry → Bool)
    (f : QueueEntry → StatusSet) :
    (queue.map fun e => if chosen e then { e with status := f e } else e).map
      QueueEntry.request = queue.map QueueEntry.request := by
  rw [List.map_map]
  apply List.map_congr_left
  intro e _
  rw [Function.comp_apply]
  split <;> rfl

/-- Remembering who executed a request leaves the requests of a log alone. -/
theorem map_request_executedBy (log : List LogEntry) (f : LogEntry → NodeSet) :
    (log.map fun e => { e with executedBy := f e }).map LogEntry.request =
      log.map LogEntry.request := by
  rw [List.map_map]
  rfl

/-- The next request to execute is committed, and follows the last executed one. -/
theorem of_nextCommitted {r : Record} {a : AssignedRequest} (next : nextCommitted? r = some a) :
    a ∈ r.queued ∧ a.seq = r.lastExec + 1 ∧ r.lastExec ≠ Json.maxUnsigned := by
  unfold nextCommitted? at next
  split at next
  · contradiction
  · next room =>
      obtain ⟨e, found, rfl⟩ := Option.map_eq_some_iff.mp next
      have committed := List.find?_some found
      simp only [Bool.and_eq_true, decide_eq_true_eq] at committed
      exact ⟨List.mem_map_of_mem (List.mem_of_find?_eq_some found), committed.2, room⟩

/-! ### Which phases keep the stance -/

theorem stance_own_findCommonHistory :
    ((s.findCommonHistory site).own site).stance = (s.own site).stance := by
  unfold findCommonHistory
  split
  · exact stance_own_updateOwn fun _ => rfl
  · apply stance_own_updateOwn
    intro r
    dsimp only
    split
    · rfl
    · split <;> rfl

theorem viewChanged_own_findCommonHistory :
    ((s.findCommonHistory site).own site).viewChanged = (s.own site).viewChanged :=
  congrArg (fun stance => stance.2.1) stance_own_findCommonHistory

theorem stance_own_acceptProposals (view : View) (primary : NodeId) :
    ((s.acceptProposals site view primary).own site).stance = (s.own site).stance := by
  unfold acceptProposals
  split
  · rfl
  · apply stance_own_updateOwn
    intro r
    refine acceptProposals_induction (P := fun t => t.stance = r.stance) ?_ r rfl
    intro t a _ same
    unfold acceptOne
    split
    · exact same
    · exact same

theorem stance_own_prepareToCommit :
    ((s.prepareToCommit site).own site).stance = (s.own site).stance :=
  stance_own_updateOwn fun _ => rfl

/-- What one execution of a committed request carries over is carried over by all of them. -/
theorem commitUpTo_induction {P : Agreement → Prop}
    (step : ∀ s a, P s → nextCommitted? (s.own site) = some a →
      site.cluster.adoptQuorum ≤ (s.committedBy site a).card →
      P (s.updateOwn site (Record.apply a (s.committedBy site a) site.cluster.logCapacity)))
    (bound : Nat) (start : P s) : P (s.commitUpTo site bound).1 := by
  induction bound generalizing s with
  | zero => exact start
  | succ bound ih =>
      unfold commitUpTo
      split
      · exact start
      · next a found =>
          dsimp only
          split
          · exact start
          · next quorum => exact ih (step s a start found (by omega))

theorem length_records_commitUpTo (site : Site) (bound : Nat) (s : Agreement) :
    (s.commitUpTo site bound).1.records.length = s.records.length :=
  commitUpTo_induction (P := fun t => t.records.length = s.records.length)
    (fun _ _ same _ _ => by rwa [length_records_updateOwn]) bound rfl

theorem stance_own_commit : ((s.commit site).1.own site).stance = (s.own site).stance :=
  commitUpTo_induction (P := fun t => (t.own site).stance = (s.own site).stance)
    (fun s a same _ _ =>
      (stance_own_updateOwn (f := Record.apply a (s.committedBy site a) _) fun _ => rfl).trans same)
    _ rfl

theorem stance_own_tidy (view : View) :
    ((s.tidy site view).own site).stance = (s.own site).stance := by
  unfold tidy
  refine (stance_own_updateOwn fun r => ?_).trans (stance_own_updateOwn fun _ => rfl)
  dsimp only
  split <;> rfl

/-! ### What a round leaves alone -/

section Induction

variable {P : Agreement → Prop} (updated : ∀ s f, P s → P (s.updateOwn site f))
include updated

theorem findCommonHistory_induction (start : P s) : P (s.findCommonHistory site) := by
  unfold findCommonHistory
  split
  · exact updated _ _ start
  · exact updated _ _ start

theorem enterView_induction {view : View} {primary : NodeId} (start : P s) :
    P (s.enterView site view primary) := by
  have tracked : P (s.trackView site view) := by
    unfold trackView
    split
    · exact start
    · exact updated _ _ start
  unfold enterView changeView leadView followView
  dsimp only
  repeat' split
  · exact updated _ _ (findCommonHistory_induction updated (updated _ _ tracked))
  · exact tracked
  · exact tracked
  · exact updated _ _ tracked
  · exact tracked

theorem proceed_induction {answers : Answers} {view : View} {primary : NodeId} (start : P s) :
    P (s.proceed site answers view primary).1 := by
  have found := findCommonHistory_induction updated start
  have accepted : ∀ t, P t → P (t.acceptProposals site view primary) := by
    intro t holds
    unfold acceptProposals
    split
    · exact holds
    · exact updated _ _ holds
  unfold proceed
  dsimp only
  refine updated _ _ (updated _ _ ?_)
  split
  · exact found
  · unfold agree
    dsimp only
    refine commitUpTo_induction (fun t a holds _ _ => updated _ _ holds) _ ?_
    refine updated _ _ (accepted _ ?_)
    split
    · exact updated _ _ found
    · exact found

/-- What no change of the own record and of the flush marks can break, a round does not break. -/
theorem round_induction (marked : ∀ s flush needFlush, P s →
      P { s with flush := flush, needFlush := needFlush })
    {answers : Answers} (start : P s) : P (s.round site answers).state := by
  have honoured : P (s.honourFlush site) := by
    unfold honourFlush
    split
    · exact marked _ _ _ (updated _ _ start)
    · exact start
  rw [state_round]
  split
  · exact honoured
  · next primary _ =>
    have entered : P ((s.honourFlush site).enterView site (.id primary) primary) :=
      enterView_induction updated honoured
    rw [actIn_eq]
    split
    · exact updated _ _ (marked _ _ _ entered)
    · exact proceed_induction updated entered

end Induction

theorem length_records_honourFlush :
    (s.honourFlush site).records.length = s.records.length := by
  unfold honourFlush
  split
  · exact length_records_updateOwn ..
  · rfl

/-- Honouring a flush puts a fresh record in the place of the own one, or changes no record. -/
theorem recordOf_honourFlush (inTable : site.me < s.records.length) (k : NodeId) :
    (s.honourFlush site).recordOf k = s.recordOf k ∨
      k = site.me ∧ (s.honourFlush site).recordOf k = .new site.cluster.clients := by
  unfold honourFlush
  split
  · by_cases isMe : k = site.me
    · subst isMe
      exact .inr ⟨rfl, own_updateOwn inTable _⟩
    · exact .inl (recordOf_updateOwn_of_ne isMe ..)
  · exact .inl rfl

theorem length_records_findCommonHistory :
    (s.findCommonHistory site).records.length = s.records.length :=
  findCommonHistory_induction (P := fun t => t.records.length = s.records.length)
    (fun _ _ same => by rw [length_records_updateOwn, same]) rfl

theorem length_records_enterView (view : View) (primary : NodeId) :
    (s.enterView site view primary).records.length = s.records.length :=
  enterView_induction (P := fun t => t.records.length = s.records.length)
    (fun _ _ same => by rw [length_records_updateOwn, same]) rfl

theorem length_records_round (answers : Answers) :
    (s.round site answers).state.records.length = s.records.length :=
  round_induction (P := fun t => t.records.length = s.records.length)
    (fun _ _ same => by rw [length_records_updateOwn, same]) (fun _ _ _ same => same) rfl

/-- Entering a view leaves the records of others alone. -/
theorem recordOf_enterView_of_ne {k : NodeId} (other : k ≠ site.me) (view : View)
    (primary : NodeId) : (s.enterView site view primary).recordOf k = s.recordOf k :=
  enterView_induction (P := fun t => t.recordOf k = s.recordOf k)
    (fun t f same => (recordOf_updateOwn_of_ne other f t).trans same) rfl

/-- A round leaves the records of others alone. -/
theorem recordOf_round_of_ne {k : NodeId} (other : k ≠ site.me) (answers : Answers) :
    (s.round site answers).state.recordOf k = s.recordOf k :=
  round_induction (P := fun t => t.recordOf k = s.recordOf k)
    (fun t f same => (recordOf_updateOwn_of_ne other f t).trans same) (fun _ _ _ same => same) rfl

/-! ### Leading a view -/

/-- The replica is the primary of the view it is in, and has renewed its requests there. -/
def Leading (site : Site) (s : Agreement) : Prop :=
  (s.own site).view = .id site.me ∧ (s.own site).viewChanged = false

theorem Leading.of_stance_eq {t : Agreement} (leading : t.Leading site)
    (same : (t.own site).stance = (s.own site).stance) : s.Leading site := by
  simp only [Record.stance, Prod.mk.injEq] at same
  exact ⟨same.1 ▸ leading.1, same.2.1 ▸ leading.2⟩

/-- A replica that is in a view and does not wait stays as it is when it enters the view again. -/
theorem enterView_of_settled {view : View} (inView : (s.own site).view = view)
    (settled : (s.own site).viewChanged = false) (primary : NodeId) :
    s.enterView site view primary = s := by
  have tracked : s.trackView site view = s := if_pos inView
  unfold enterView
  dsimp only
  rw [tracked, settled]
  rfl

theorem view_own_trackView (inTable : site.me < s.records.length) (view : View) :
    ((s.trackView site view).own site).view = view := by
  unfold trackView
  split
  · next same => exact same
  · rw [own_updateOwn inTable]

theorem trackView_eq_or (inTable : site.me < s.records.length) (view : View) :
    s.trackView site view = s ∨ ((s.trackView site view).own site).viewChanged = true := by
  unfold trackView
  split
  · exact .inl rfl
  · rw [own_updateOwn inTable]
    exact .inr rfl

theorem length_records_trackView (view : View) :
    (s.trackView site view).records.length = s.records.length := by
  unfold trackView
  split <;> simp

theorem pending_own_trackView (view : View) :
    ((s.trackView site view).own site).pending = (s.own site).pending := by
  unfold trackView
  split
  · rfl
  · exact apply_own_updateOwn Record.pending (by intro r; rfl)

/-- A primary that takes over a view goes on behind what it has executed itself. -/
theorem seq_own_enterView (inTable : site.me < s.records.length) {view : View}
    (waiting : ((s.trackView site view).own site).viewChanged = true)
    (quorum : site.cluster.establishQuorum ≤ (s.trackView site view).readyFor view) :
    ((s.enterView site view site.me).own site).seq = (s.own site).lastExec := by
  have inTracked : site.me < (s.trackView site view).records.length := by
    rwa [length_records_trackView]
  have tracked : ((s.trackView site view).own site).lastExec = (s.own site).lastExec := by
    unfold trackView
    split
    · rfl
    · exact apply_own_updateOwn Record.lastExec (by intro r; rfl)
  unfold enterView changeView leadView
  dsimp only
  rw [if_pos waiting, if_pos rfl, if_pos quorum]
  calc _ = (((((s.trackView site view).renewRequests site).findCommonHistory site).own
          site).seq) := apply_own_updateOwn Record.seq (by intro r; rfl)
    _ = ((((s.trackView site view).renewRequests site).own site).seq) :=
          congrArg (fun stance => stance.2.2) stance_own_findCommonHistory
    _ = ((s.trackView site view).own site).lastExec := by
          rw [renewRequests, own_updateOwn inTracked]
    _ = (s.own site).lastExec := tracked

/-- A replica that leads after entering a view has become the primary in doing so, or it led before
and nothing has changed. -/
theorem leading_enterView {primary : NodeId} (inTable : site.me < s.records.length)
    (leading : (s.enterView site (.id primary) primary).Leading site) :
    (primary = site.me ∧ ((s.trackView site (.id primary)).own site).viewChanged = true ∧
        site.cluster.establishQuorum ≤
          (s.trackView site (.id primary)).readyFor (.id primary)) ∨
      (s.enterView site (.id primary) primary = s ∧ s.Leading site ∧
        ((s.trackView site (.id primary)).own site).viewChanged = false) := by
  have view := view_own_trackView inTable (.id primary)
  have unchanged := trackView_eq_or inTable (.id primary)
  have inTracked : site.me < (s.trackView site (.id primary)).records.length := by
    rwa [length_records_trackView]
  unfold enterView at *
  dsimp only at *
  cases waiting : ((s.trackView site (.id primary)).own site).viewChanged with
  | false =>
      have same := unchanged.resolve_right (by simp [waiting])
      rw [waiting, if_neg (by simp), same] at leading
      rw [if_neg (by simp), same]
      exact .inr ⟨rfl, leading, rfl⟩
  | true =>
      left
      rw [waiting, if_pos rfl] at leading
      unfold changeView leadView followView at leading
      dsimp only at leading
      split at leading
      · next isMe =>
          split at leading
          · next quorum => exact ⟨isMe, rfl, quorum⟩
          · exact absurd leading.2 (by simp [waiting])
      · next another =>
          split at leading
          · exact absurd leading.2 (by simp [waiting])
          · have copied := leading.1
            rw [own_updateOwn inTracked, copyFrom, view] at copied
            exact absurd (View.id.inj copied) another

theorem view_own_enterView (inTable : site.me < s.records.length) (view : View)
    (primary : NodeId) : ((s.enterView site view primary).own site).view = view := by
  have tracked := view_own_trackView inTable view
  unfold enterView changeView leadView followView
  dsimp only
  repeat' split
  · refine (apply_own_updateOwn Record.view (by intro r; rfl)).trans ?_
    refine (congrArg Prod.fst stance_own_findCommonHistory).trans ?_
    exact (apply_own_updateOwn Record.view (by intro r; rfl)).trans tracked
  · exact tracked
  · exact tracked
  · exact (apply_own_updateOwn Record.view (by intro r; rfl)).trans tracked
  · exact tracked

/-- After entering a view the stance changes only by assigning. -/
theorem stance_own_proceed (answers : Answers) (view : View) (primary : NodeId)
    (inTable : site.me < s.records.length) :
    (s.proceedAssigns site answers view primary = [] ∧
        ((s.proceed site answers view primary).1.own site).stance = (s.own site).stance) ∨
      (s.proceedAssigns site answers view primary =
          (s.findCommonHistory site).assignments site view ∧
        (s.own site).viewChanged = false ∧ primary = site.me ∧
        ((s.proceed site answers view primary).1.own site).stance =
          ((s.own site).view, (s.own site).viewChanged,
            max (s.own site).seq ((s.findCommonHistory site).own site).lastExec +
              ((s.findCommonHistory site).assignments site view).length)) := by
  have found : ((s.findCommonHistory site).own site).stance = (s.own site).stance :=
    stance_own_findCommonHistory
  have inFound : site.me < (s.findCommonHistory site).records.length := by
    rwa [length_records_findCommonHistory]
  unfold proceed proceedAssigns
  dsimp only
  rw [stance_own_tidy]
  cases waiting : ((s.findCommonHistory site).own site).viewChanged with
  | true => exact .inl ⟨rfl, found⟩
  | false =>
      simp only [Record.stance, Prod.mk.injEq] at found
      obtain ⟨sameView, sameWait, sameSeq⟩ := found
      simp only [Bool.false_eq_true, if_false, Bool.not_false, Bool.true_and]
      unfold agree
      dsimp only
      rw [stance_own_commit, stance_own_prepareToCommit, stance_own_acceptProposals]
      by_cases assigning : (decide (primary = site.me) && mayAssign site answers) = true
      · right
        simp only [if_pos assigning, assign_eq inFound, own_updateOwn inFound]
        rw [Bool.and_eq_true, decide_eq_true_eq] at assigning
        refine ⟨trivial, sameWait ▸ waiting, assigning.1, ?_⟩
        simp only [Record.stance, sameView, sameWait, sameSeq]
      · left
        simp only [if_neg assigning, Record.stance, sameView, sameWait, sameSeq, and_self]

/-- A replica that still leads behind what it has assigned since it entered the view led before, and
the numbers it has given out rise from the last one on. -/
theorem leading_proceed {answers : Answers} {view : View} {primary : NodeId}
    (inTable : site.me < s.records.length)
    (leading : (s.proceed site answers view primary).1.Leading site) :
    s.Leading site ∧ (s.own site).seq ≤ ((s.proceed site answers view primary).1.own site).seq ∧
      ∀ a ∈ s.proceedAssigns site answers view primary, (s.own site).seq < a.seq ∧
        a.seq ≤ ((s.proceed site answers view primary).1.own site).seq := by
  have found : ((s.findCommonHistory site).own site).stance = (s.own site).stance :=
    stance_own_findCommonHistory
  simp only [Record.stance, Prod.mk.injEq] at found
  unfold Leading at *
  rcases stance_own_proceed answers view primary inTable with
    ⟨nothing, stance⟩ | ⟨given, _, _, stance⟩
  · simp only [Record.stance, Prod.mk.injEq] at stance
    rw [stance.1, stance.2.1] at leading
    rw [stance.2.2, nothing]
    exact ⟨leading, Nat.le_refl _, by simp⟩
  · simp only [Record.stance, Prod.mk.injEq] at stance
    rw [stance.1, stance.2.1] at leading
    rw [stance.2.2, given]
    refine ⟨leading, by omega, fun a numbered => ?_⟩
    have := mem_assignments numbered
    omega

/-! ### Between rounds -/

/-- The request is neither executed nor pending, and there is room for it. -/
structure Bufferable (site : Site) (q : ClientRequest) (s : Agreement) : Prop where
  unexecuted : (s.own site).executed q = false
  fresh : ∀ p ∈ (s.own site).pending, p.sameOrigin q = false
  room : (s.own site).pending.length < site.cluster.pendingCapacity

/-- A submitted request is buffered behind the others, or changes nothing. -/
theorem submit_eq_or (site : Site) (s : Agreement) (q : ClientRequest) :
    (s.submit site q).toOption.getD s = s ∨
      s.Bufferable site q ∧
        (s.submit site q).toOption.getD s =
          s.updateOwn site fun r => { r with pending := r.pending ++ [q] } := by
  unfold submit
  dsimp only
  repeat' split
  · exact .inl rfl
  · exact .inl rfl
  · exact .inl rfl
  · exact .inl rfl
  · next unexecuted fresh room =>
      refine .inr ⟨⟨Bool.eq_false_iff.mpr unexecuted, ?_, Nat.lt_of_not_le room⟩, rfl⟩
      simpa using fresh

/-- A record that arrives is never that of the replica itself. -/
theorem own_receive (site : Site) (sender : NodeId) (r : Record) (s : Agreement) :
    (s.receive site sender r).own site = s.own site := by
  unfold receive
  split
  · next peer =>
      simp [own, recordOf, List.getElem?_set_ne (Site.isPeer_iff.mp peer).1]
  · rfl

/-- The record that a peer has broadcast takes its place, cut to the bounds of the cluster. -/
theorem recordOf_receive {sender : NodeId} (peer : site.isPeer sender = true)
    (inTable : sender < s.records.length) (r : Record) (j : NodeId) :
    (s.receive site sender r).recordOf j =
      if j = sender then sanitizeRecord site r else s.recordOf j := by
  rw [receive, if_pos peer]
  by_cases same : j = sender
  · subst same
    simp [recordOf, inTable]
  · simp [recordOf, same, Ne.symm same]

theorem length_records_receive (site : Site) (sender : NodeId) (r : Record) (s : Agreement) :
    (s.receive site sender r).records.length = s.records.length := by
  unfold receive
  split <;> simp

theorem records_call {site : Site} {s t : Agreement} {function : Function} {reply : Reply}
    (answered : s.call site function = .ok (reply, t)) : t.records = s.records := by
  unfold Agreement.call at answered
  split at answered
  · obtain ⟨_, rfl⟩ := Prod.mk.inj (Except.ok.inj answered); rfl
  · obtain ⟨_, rfl⟩ := Prod.mk.inj (Except.ok.inj answered); rfl
  · obtain ⟨_, rfl⟩ := Prod.mk.inj (Except.ok.inj answered); rfl
  · obtain ⟨_, rfl⟩ := Prod.mk.inj (Except.ok.inj answered); rfl
  · contradiction

end Agreement

end QuorumList
