import Mathlib.Logic.Relation
import QuorumList.Proofs.Handover
import QuorumList.Proofs.OwnRecord

/-!
What a round can do to the own record.

A round writes to the own record only, and there are few ways in which it does.  Entering a view, it
notes the view, renews its requests or copies the record of a primary; moving on, it adopts a
history, assigns, accepts, prepares and executes requests, and drops some.  `Entry` and `Change` say
once what each of these writes, and under which condition.  The phases of a round do nothing else,
which is what `reached_enterView` and `reached_proceed` say, so a round keeps what every single
change keeps.
-/
namespace QuorumList.Agreement

/-! ### Elementary changes -/

/-- A change of the own record while requests move on; `s` holds the records of the others, and
`given` are the requests that the round assigns.  Requests enter the queue only once the replica has
stopped waiting for the primary of its view. -/
inductive Change (site : Site) (s : Agreement) (given : List AssignedRequest) :
    Record → Record → Prop where
  | flag (r : Record) (conflict : Bool) : Change site s given r { r with conflict := conflict }
  /-- The history of the holder of the common history is adopted. -/
  | adopt (r : Record) {holder : NodeId} (another : holder ≠ site.me)
      (isSound : sound site (s.recordOf holder) = true) :
      Change site s given r
        { r with
          conflict := false
          state := (s.recordOf holder).state
          log := (s.recordOf holder).log
          replies := (s.recordOf holder).replies }.pruneExecuted
  | assign (r : Record) (settled : r.viewChanged = false)
      (fresh : ∀ a ∈ given, a.request ∈ r.pending ∧ r.isQueued a.request = false ∧
        r.executed a.request = false) :
      Change site s given r
        { r with
          queue := r.queue ++ given.map preparedEntry
          seq := max r.seq r.lastExec + given.length }
  | accept (r : Record) {view : View} {primary : NodeId} {a : AssignedRequest}
      (settled : r.viewChanged = false) (another : primary ≠ site.me)
      (proposed : a ∈ (s.recordOf primary).queued)
      (acceptable : acceptsProposal site view a r = true) :
      Change site s given r { r with queue := r.queue ++ [preparedEntry a] }
  | prepare (r : Record) (chosen : QueueEntry → Bool) :
      Change site s given r
        { r with
          queue := r.queue.map fun e =>
            if chosen e then { e with status := e.status.insert .commit } else e }
  | execute (r : Record) {a : AssignedRequest} {executedBy : NodeSet}
      (next : nextCommitted? r = some a)
      (quorum : site.cluster.adoptQuorum ≤ executedBy.card) :
      Change site s given r (r.apply a executedBy site.cluster.logCapacity)
  | remember (r : Record) (supporters : LogEntry → NodeSet) :
      Change site s given r
        { r with
          log := r.log.map fun e => { e with executedBy := e.executedBy.union (supporters e) } }
  | drop (r : Record) (keep : QueueEntry → Bool) :
      Change site s given r { r with queue := r.queue.filter keep }
  | prune (r : Record) : Change site s given r r.pruneExecuted

/-- A change of the own record on entering a view. -/
inductive Entry (site : Site) (s : Agreement) : Record → Record → Prop where
  | note (r : Record) (view : View) :
      Entry site s r { r with view := view, viewChanged := true }
  | renew (r : Record) (requests : List ClientRequest) :
      Entry site s r { r with pending := requests, queue := [], seq := r.lastExec }
  | change {r r' : Record} (change : Change site s [] r r') : Entry site s r r'
  | lead (r : Record) : Entry site s r { r with viewChanged := false }
  /-- The record of another primary is copied. -/
  | copy (r : Record) {primary : NodeId} (another : primary ≠ site.me)
      (isSound : sound site (s.recordOf primary) = true) :
      Entry site s r (copyFrom (s.recordOf primary) r)

/-! ### Tables that changes lead to -/

/-- A table comes from another one by changes of the own record. -/
structure Reached (site : Site) (change : Record → Record → Prop) (s t : Agreement) : Prop where
  length : t.records.length = s.records.length
  others : ∀ k, k ≠ site.me → t.recordOf k = s.recordOf k
  own : Relation.ReflTransGen change (s.own site) (t.own site)

variable {site : Site} {s t : Agreement} {given : List AssignedRequest}

namespace Reached

variable {change : Record → Record → Prop}

theorem refl : Reached site change s s :=
  ⟨rfl, fun _ _ => rfl, .refl⟩

/-- One more change keeps a table within reach. -/
theorem updateOwn (inTable : site.me < s.records.length) (reached : Reached site change s t)
    {f : Record → Record} (once : Relation.ReflTransGen change (t.own site) (f (t.own site))) :
    Reached site change s (t.updateOwn site f) where
  length := by rw [length_records_updateOwn, reached.length]
  others := fun k other => by rw [recordOf_updateOwn_of_ne other, reached.others k other]
  own := by
    rw [own_updateOwn (reached.length ▸ inTable)]
    exact reached.own.trans once

theorem inTable (inTable : site.me < s.records.length) (reached : Reached site change s t) :
    site.me < t.records.length := by
  rw [reached.length]
  exact inTable

/-- What every change keeps holds of the own record in the end. -/
theorem own_of_keeps {P : Record → Prop} (reached : Reached site change s t)
    (start : P (s.own site)) (keeps : ∀ r r', change r r' → P r → P r') : P (t.own site) := by
  have all : ∀ r, Relation.ReflTransGen change (s.own site) r → P r := by
    intro r path
    induction path with
    | refl => exact start
    | tail _ last ih => exact keeps _ _ last ih
  exact all _ reached.own

/-- What every change keeps holds of all records in the end, if it did at the start. -/
theorem forall_records {P : Record → Prop} (reached : Reached site change s t)
    (start : ∀ r ∈ s.records, P r) (inTable : site.me < s.records.length)
    (keeps : ∀ r r', change r r' → P r → P r') : ∀ r ∈ t.records, P r := by
  intro r member
  obtain ⟨k, inRecords, rfl⟩ := List.mem_iff_getElem.mp member
  have isRecord : t.records[k] = t.recordOf k := by simp [recordOf, inRecords]
  rw [isRecord]
  by_cases isMe : k = site.me
  · subst isMe
    exact reached.own_of_keeps (start _ (recordOf_mem inTable)) keeps
  · rw [reached.others k isMe]
    exact start _ (recordOf_mem (reached.length ▸ inRecords))

end Reached

/-! ### Moving requests on -/

/-- Looking for a common history is one change, whatever was changed before. -/
theorem findCommonHistory_eq (given : List AssignedRequest)
    (others : ∀ k, k ≠ site.me → t.recordOf k = s.recordOf k) :
    ∃ f, t.findCommonHistory site = t.updateOwn site f ∧
      Change site s given (t.own site) (f (t.own site)) := by
  unfold Agreement.findCommonHistory
  split
  · exact ⟨_, rfl, .flag _ _⟩
  · next state holder chosen =>
      have isSound := InOrder.sound_of_adoptable chosen
      obtain ⟨rfl, _⟩ := of_adoptable chosen
      refine ⟨_, rfl, ?_⟩
      dsimp only
      split
      · exact .flag _ _
      · next another =>
          split
          · exact .flag _ _
          · rw [others holder another] at isSound ⊢
            exact .adopt _ another isSound

theorem Reached.findCommonHistory (inTable : site.me < s.records.length)
    (reached : Reached site (Change site s given) s t) :
    Reached site (Change site s given) s (t.findCommonHistory site) := by
  obtain ⟨f, same, change⟩ := findCommonHistory_eq given reached.others
  rw [same]
  exact reached.updateOwn inTable (.single change)

theorem Reached.assign (inTable : site.me < s.records.length)
    (reached : Reached site (Change site s given) s t) {view : View}
    (settled : (t.own site).viewChanged = false) (isGiven : t.assignments site view = given) :
    Reached site (Change site s given) s (t.assign site view) := by
  rw [assign_eq (reached.inTable inTable), isGiven]
  refine reached.updateOwn inTable (.single (.assign _ settled fun a new => ?_))
  rw [← isGiven] at new
  have listed := (map_request_assignments site view t).subset (List.mem_map_of_mem new)
  obtain ⟨pending, unassigned⟩ := List.mem_filter.mp listed
  simp only [Bool.and_eq_true, Bool.not_eq_true'] at unassigned
  exact ⟨pending, unassigned.1⟩

theorem Reached.acceptProposals (inTable : site.me < s.records.length)
    (reached : Reached site (Change site s given) s t)
    (settled : (t.own site).viewChanged = false) (view : View) (primary : NodeId) :
    Reached site (Change site s given) s (t.acceptProposals site view primary) := by
  unfold Agreement.acceptProposals
  split
  · exact reached
  · next another =>
      apply reached.updateOwn inTable
      refine (acceptProposals_induction
        (P := fun r => Relation.ReflTransGen (Change site s given) (t.own site) r ∧
          r.viewChanged = false) ?_ _ ⟨.refl, settled⟩).1
      intro r a proposed path
      unfold acceptOne
      split
      · next acceptable =>
          rw [reached.others primary another] at proposed
          exact ⟨path.1.tail (.accept r path.2 another proposed acceptable), path.2⟩
      · exact path

theorem Reached.prepareToCommit (inTable : site.me < s.records.length)
    (reached : Reached site (Change site s given) s t) :
    Reached site (Change site s given) s (t.prepareToCommit site) :=
  reached.updateOwn inTable (.single (.prepare _ _))

theorem Reached.commitUpTo (inTable : site.me < s.records.length)
    (reached : Reached site (Change site s given) s t) (bound : Nat) :
    Reached site (Change site s given) s (t.commitUpTo site bound).1 :=
  commitUpTo_induction (P := Reached site (Change site s given) s)
    (fun _ _ before next quorum =>
      before.updateOwn inTable (.single (.execute _ next quorum))) bound reached

theorem Reached.tidy (inTable : site.me < s.records.length)
    (reached : Reached site (Change site s given) s t) (view : View) :
    Reached site (Change site s given) s (t.tidy site view) := by
  unfold Agreement.tidy
  refine (reached.updateOwn inTable (.single (.remember _ _))).updateOwn inTable ?_
  dsimp only
  split
  · exact .single (.prune _)
  · exact .tail (.single (.drop _ _)) (.prune _)

/-- A round that goes on in a view moves requests on, up to where it begins to execute them. -/
theorem reached_prepareToCommit (inTable : site.me < s.records.length) {answers : Answers}
    {view : View} {primary : NodeId}
    (working : ((s.findCommonHistory site).own site).viewChanged = false) :
    Reached site (Change site s (s.proceedAssigns site answers view primary)) s
      (((if primary = site.me && mayAssign site answers then
            (s.findCommonHistory site).assign site view
          else s.findCommonHistory site).acceptProposals site view
        primary).prepareToCommit site) := by
  have found : Reached site (Change site s (s.proceedAssigns site answers view primary)) s
      (s.findCommonHistory site) := Reached.refl.findCommonHistory inTable
  refine .prepareToCommit inTable ?_
  split
  · next assigning =>
      have given : (s.findCommonHistory site).assignments site view =
          s.proceedAssigns site answers view primary := by
        unfold proceedAssigns
        dsimp only
        rw [if_pos (by rw [working, assigning]; rfl)]
      exact (found.assign inTable working given).acceptProposals inTable
        ((apply_own_updateOwn Record.viewChanged (by intro r; rfl)).trans working) view primary
  · exact found.acceptProposals inTable working view primary

/-- Once the view is entered, a round only moves requests on. -/
theorem reached_proceed (inTable : site.me < s.records.length) (answers : Answers) (view : View)
    (primary : NodeId) :
    Reached site (Change site s (s.proceedAssigns site answers view primary)) s
      (s.proceed site answers view primary).1 := by
  unfold proceed
  dsimp only
  refine Reached.tidy inTable ?_ view
  split
  · exact Reached.refl.findCommonHistory inTable
  · next working =>
      rw [Bool.not_eq_true] at working
      exact (reached_prepareToCommit inTable working).commitUpTo inTable _

/-! ### Entering a view -/

/-- A round enters a view in no other way. -/
theorem reached_enterView (inTable : site.me < s.records.length) (view : View)
    (primary : NodeId) : Reached site (Entry site s) s (s.enterView site view primary) := by
  have tracked : Reached site (Entry site s) s (s.trackView site view) := by
    unfold trackView
    split
    · exact .refl
    · exact Reached.refl.updateOwn inTable (.single (.note _ _))
  unfold enterView changeView leadView followView
  dsimp only
  split
  · split
    · split
      · have renewed : Reached site (Entry site s) s
            ((s.trackView site view).renewRequests site) :=
          tracked.updateOwn inTable (.single (.renew _ _))
        obtain ⟨f, same, change⟩ := findCommonHistory_eq [] renewed.others
        rw [same]
        exact (renewed.updateOwn inTable (.single (.change change))).updateOwn inTable
          (.single (.lead _))
      · exact tracked
    · next another =>
        split
        · exact tracked
        · next accepted =>
            simp only [Bool.or_eq_true, Bool.not_eq_true', not_or, Bool.not_eq_false] at accepted
            have isSound := (acceptsNewPrimary_iff.mp accepted.2).1
            rw [tracked.others primary another] at isSound ⊢
            exact tracked.updateOwn inTable (.single (.copy _ another isSound))
  · exact tracked

end QuorumList.Agreement
