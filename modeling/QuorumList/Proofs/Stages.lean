import Mathlib.Logic.Relation
import QuorumList.Proofs.Votes

/-!
The stages of a round.

A round that acts in a view goes through a few kinds of stages, each of which rewrites the own
record: the view is noticed, requests are renewed, a common history is missed, kept or adopted, the
view is led, the record of a primary is copied, requests are assigned, accepted, prepared and
executed, and the record is tidied up.  `Stage` names them with what is known when they begin.  So
what is claimed of whole rounds is proved stage by stage.

Unlike a change of the own record, a stage is a step of the whole table: it says whose record is
copied, and which records make a quorum.
-/
namespace QuorumList.Agreement

variable {site : Site} {s t : Agreement} {primary : NodeId} {copying : Bool} {answers : Answers}

/-! ### Updates of the own record -/

theorem updateOwn_updateOwn (f g : Record → Record) :
    (s.updateOwn site f).updateOwn site g = s.updateOwn site (g ∘ f) := by
  simp only [updateOwn, List.modify_modify_eq]

theorem updateOwn_congr {f g : Record → Record} (same : f (s.own site) = g (s.own site)) :
    s.updateOwn site f = s.updateOwn site g := by
  by_cases inTable : site.me < s.records.length
  · have isOwn : s.records[site.me] = s.own site := by simp [own, recordOf, inTable]
    simp only [updateOwn, List.modify_eq_set_getElem?]
    simp [inTable, isOwn, same]
  · rw [updateOwn_of_outside (Nat.le_of_not_lt inTable),
      updateOwn_of_outside (Nat.le_of_not_lt inTable)]

theorem updateOwn_self {f : Record → Record} (same : f (s.own site) = s.own site) :
    s.updateOwn site f = s := by
  rw [updateOwn_congr (g := id) same]
  simp [updateOwn]

/-! ### Stages -/

/-- Adopt the history of another record. -/
def adoptFrom (source r : Record) : Record :=
  { r with
    conflict := false
    state := source.state
    log := source.log
    replies := source.replies }.pruneExecuted

/-- One stage of a round that is told the primary of its view; `copying` says whether the round
copies the record of this primary. -/
inductive Stage (site : Site) (primary : NodeId) (copying : Bool) : Agreement → Agreement → Prop
    where
  | notice (s : Agreement) :
      Stage site primary copying s
        (s.updateOwn site fun r => { r with view := .id primary, viewChanged := true })
  /-- The primary of a new view rolls everything under agreement back. -/
  | renew (s : Agreement) (isMe : primary = site.me) :
      Stage site primary copying s (s.renewRequests site)
  /-- The conflict flag tells whether there is a common history. -/
  | flag (s : Agreement) (conflict : Bool) :
      Stage site primary copying s (s.updateOwn site fun r => { r with conflict := conflict })
  /-- The history of the holder of the common history is adopted. -/
  | adopt (s : Agreement) {holder : NodeId} (inRange : holder < site.cluster.size)
      (another : holder ≠ site.me) (isSound : sound site (s.recordOf holder) = true) :
      Stage site primary copying s (s.updateOwn site (adoptFrom (s.recordOf holder)))
  | lead (s : Agreement) :
      Stage site primary copying s (s.updateOwn site fun r => { r with viewChanged := false })
  | copy (s : Agreement) (copies : copying = true) (another : primary ≠ site.me)
      (inView : (s.recordOf primary).view = .id primary)
      (acceptable : s.acceptsNewPrimary site primary = true) :
      Stage site primary copying s (s.updateOwn site (copyFrom (s.recordOf primary)))
  | assign (s : Agreement) (isMe : primary = site.me) :
      Stage site primary copying s (s.assign site (.id primary))
  | accept (s : Agreement) {a : AssignedRequest} (another : primary ≠ site.me)
      (proposed : a ∈ (s.recordOf primary).queued)
      (acceptable : acceptsProposal site (.id primary) a (s.own site) = true) :
      Stage site primary copying s
        (s.updateOwn site fun r => { r with queue := r.queue ++ [preparedEntry a] })
  | prepare (s : Agreement) : Stage site primary copying s (s.prepareToCommit site)
  | execute (s : Agreement) {a : AssignedRequest} (next : nextCommitted? (s.own site) = some a)
      (quorum : site.cluster.adoptQuorum ≤ (s.committedBy site a).card) :
      Stage site primary copying s
        (s.updateOwn site (Record.apply a (s.committedBy site a) site.cluster.logCapacity))
  | tidy (s : Agreement) : Stage site primary copying s (s.tidy site (.id primary))

namespace Stage

theorem length (stage : Stage site primary copying s t) :
    t.records.length = s.records.length := by
  cases stage with
  | tidy =>
      unfold Agreement.tidy
      dsimp only
      rw [length_records_updateOwn, length_records_updateOwn]
  | _ => exact length_records_updateOwn ..

/-- A stage leaves the records of others alone. -/
theorem others (stage : Stage site primary copying s t) {k : NodeId} (other : k ≠ site.me) :
    t.recordOf k = s.recordOf k := by
  cases stage with
  | tidy =>
      unfold Agreement.tidy
      dsimp only
      rw [recordOf_updateOwn_of_ne other, recordOf_updateOwn_of_ne other]
  | _ => exact recordOf_updateOwn_of_ne other ..

end Stage

/-- A table that a round goes through after another one. -/
def Staged (site : Site) (primary : NodeId) (copying : Bool) : Agreement → Agreement → Prop :=
  Relation.ReflTransGen (Stage site primary copying)

namespace Staged

theorem of_eq {u : Agreement} (same : u = t) (staged : Staged site primary copying s t) :
    Staged site primary copying s u :=
  same ▸ staged

theorem length (staged : Staged site primary copying s t) :
    t.records.length = s.records.length := by
  induction staged with
  | refl => rfl
  | tail _ last ih => exact last.length.trans ih

theorem others (staged : Staged site primary copying s t) {k : NodeId} (other : k ≠ site.me) :
    t.recordOf k = s.recordOf k := by
  induction staged with
  | refl => rfl
  | tail _ last ih => exact (last.others other).trans ih

/-- What holds at the start and is kept by every stage holds in the end. -/
theorem keeps {P : Agreement → Prop} (staged : Staged site primary copying s t) (start : P s)
    (step : ∀ u v, Staged site primary copying s u → Stage site primary copying u v → P u → P v) :
    P t := by
  induction staged with
  | refl => exact start
  | tail path last ih => exact step _ _ path last ih

end Staged

/-! ### The stages of a round -/

theorem staged_findCommonHistory (s : Agreement) :
    Staged site primary copying s (s.findCommonHistory site) := by
  unfold findCommonHistory
  split
  · exact .single (.flag s true)
  · next state holder chosen =>
      obtain ⟨rfl, ⟨top, -, shared⟩, -⟩ := of_adoptable chosen
      obtain ⟨inRange, isSound⟩ :=
        mem_soundNodes.mp (mem_beneath.mp (mem_beneath_of_sharedBelow shared)).1
      dsimp only
      by_cases isMe : holder = site.me
      · simp only [if_pos isMe]
        exact .single (.flag s false)
      · simp only [if_neg isMe]
        by_cases keeps : ((s.recordOf holder).lastExec ≤ (s.own site).lastExec &&
            (s.own site).consistentWith (s.recordOf holder)) = true
        · refine .of_eq (updateOwn_congr ?_) (.single (.flag s false))
          exact if_pos keeps
        · refine .of_eq (updateOwn_congr ?_) (.single (.adopt s inRange isMe isSound))
          exact if_neg keeps

/-- Proposals are taken in one after the other. -/
theorem staged_acceptOne (another : primary ≠ site.me) (proposals : List AssignedRequest)
    (proposed : ∀ a ∈ proposals, a ∈ (s.recordOf primary).queued) :
    Staged site primary copying s
      (s.updateOwn site fun r => proposals.foldl (acceptOne site (.id primary)) r) := by
  induction proposals generalizing s with
  | nil =>
      rw [updateOwn_self (by rfl)]
      exact .refl
  | cons a rest ih =>
      have split : (s.updateOwn site fun r =>
            (a :: rest).foldl (acceptOne site (.id primary)) r) =
          (s.updateOwn site (acceptOne site (.id primary) · a)).updateOwn site fun r =>
            rest.foldl (acceptOne site (.id primary)) r := by
        rw [updateOwn_updateOwn]
        rfl
      rw [split]
      refine .trans ?_ (ih fun b later => ?_)
      · by_cases acceptable : acceptsProposal site (.id primary) a (s.own site) = true
        · refine Staged.of_eq (updateOwn_congr ?_)
            (.single (.accept s another (proposed a List.mem_cons_self) acceptable))
          exact if_pos acceptable
        · refine Staged.of_eq (updateOwn_self ?_) .refl
          exact if_neg acceptable
      · rw [recordOf_updateOwn_of_ne another]
        exact proposed b (List.mem_cons_of_mem _ later)

theorem staged_acceptProposals (s : Agreement) (primary : NodeId) :
    Staged site primary copying s (s.acceptProposals site (.id primary) primary) := by
  unfold acceptProposals
  split
  · exact .refl
  · next another =>
      refine staged_acceptOne another _ fun a listed => ?_
      obtain ⟨e, member, rfl⟩ := List.mem_map.mp listed
      exact List.mem_map_of_mem (List.mem_filter.mp member).1

/-- The stages in which requests move on, up to where the round begins to execute them. -/
theorem staged_prepared (s : Agreement) (answers : Answers) (primary : NodeId) :
    Staged site primary copying s (s.prepared site answers (.id primary) primary) := by
  have found : Staged site primary copying s (s.findCommonHistory site) :=
    staged_findCommonHistory s
  unfold prepared
  dsimp only
  refine .tail (.trans ?_ (staged_acceptProposals _ primary)) (.prepare _)
  split
  · next assigning =>
      rw [Bool.and_eq_true, decide_eq_true_eq] at assigning
      exact found.tail (.assign _ assigning.1)
  · exact found

theorem staged_commitUpTo (s : Agreement) (bound : Nat) :
    Staged site primary copying s (s.commitUpTo site bound).1 :=
  commitUpTo_induction (P := Staged site primary copying s)
    (fun t _ path next quorum => path.tail (.execute t next quorum)) bound .refl

theorem staged_proceed (s : Agreement) (answers : Answers) (primary : NodeId) :
    Staged site primary copying s (s.proceed site answers (.id primary) primary).1 := by
  cases waiting : (s.own site).viewChanged with
  | true =>
      have found : ((s.findCommonHistory site).own site).viewChanged = true :=
        viewChanged_own_findCommonHistory.trans waiting
      unfold proceed
      dsimp only
      rw [if_pos found]
      exact .tail (staged_findCommonHistory s) (.tidy _)
  | false =>
      rw [proceed_of_settled waiting]
      exact .tail (.trans (staged_prepared s answers primary) (staged_commitUpTo _ _)) (.tidy _)

theorem staged_enterView (inTable : site.me < s.records.length) (primary : NodeId)
    (copies : primary ≠ site.me → ((s.trackView site (.id primary)).own site).viewChanged = true →
      (((s.trackView site (.id primary)).changeView site (.id primary) primary).own
        site).viewChanged = false → copying = true) :
    Staged site primary copying s (s.enterView site (.id primary) primary) := by
  have tracked : Staged site primary copying s (s.trackView site (.id primary)) := by
    unfold trackView
    split
    · exact .refl
    · exact .single (.notice s)
  have inTracked : site.me < (s.trackView site (.id primary)).records.length := by
    rwa [length_records_trackView]
  unfold enterView
  dsimp only
  split
  · next waiting =>
      have copies := fun another => copies another waiting
      unfold changeView leadView followView at copies ⊢
      dsimp only at copies ⊢
      split
      · next isMe =>
          split
          · exact ((tracked.tail (.renew _ isMe)).trans (staged_findCommonHistory _)).tail (.lead _)
          · exact tracked
      · next another =>
          rw [if_neg another] at copies
          split
          · exact tracked
          · next accepted =>
              rw [if_neg accepted, own_updateOwn inTracked] at copies
              simp only [Bool.or_eq_true, decide_eq_true_eq, Bool.not_eq_true', not_or,
                Bool.not_eq_false, not_not] at accepted
              exact tracked.tail (.copy _ (copies another rfl) another accepted.1.2 accepted.2)
  · exact tracked

/-- A round that copies the record of its primary says so. -/
theorem staged_enterView_round (inTable : site.me < s.records.length)
    (told : answers.viewOf site.me = .id primary) :
    Staged site primary (s.roundCopies site answers) (s.honourFlush site)
      ((s.honourFlush site).enterView site (.id primary) primary) := by
  refine staged_enterView (by rwa [length_records_honourFlush]) primary
    fun another waiting settled => ?_
  rw [roundCopies, told]
  simp [another, waiting, settled]

/-- A round drops the record in the end; or it sees no view and does nothing but honour a flush; or
it goes through its stages. -/
theorem round_stages (inTable : site.me < s.records.length) (answers : Answers) :
    (.localFlush ∈ (s.round site answers).events ∧
        (s.round site answers).state.own site = .new site.cluster.clients) ∨
      (.localFlush ∈ (s.round site answers).events ↔ s.flush = true) ∧
        (answers.viewOf site.me = .tee ∧ (s.round site answers).state = s.honourFlush site ∨
          ∃ primary, answers.viewOf site.me = .id primary ∧
            Staged site primary (s.roundCopies site answers) (s.honourFlush site)
              (s.round site answers).state) := by
  have inHonoured : site.me < (s.honourFlush site).records.length := by
    rwa [length_records_honourFlush]
  rw [state_round, localFlush_mem_events_round]
  cases told : answers.viewOf site.me with
  | tee => exact .inr ⟨by simp, .inl ⟨rfl, rfl⟩⟩
  | id primary =>
      dsimp only
      rw [actIn_eq]
      cases must : ((s.honourFlush site).enterView site (.id primary) primary).mustFlush site with
      | true =>
          refine .inl ⟨.inr ⟨primary, rfl, must⟩, ?_⟩
          rw [if_pos rfl]
          exact own_updateOwn (by rwa [length_records_enterView]) _
      | false =>
          refine .inr ⟨by simp [must], .inr ⟨primary, rfl, ?_⟩⟩
          exact (staged_enterView_round inTable told).trans (staged_proceed _ answers primary)

/-! ### The requests that a round executes -/

/-- The requests that are executed one after the other, at most so many. -/
def executes (site : Site) : Nat → Agreement → List AssignedRequest
  | 0, _ => []
  | bound + 1, s =>
      match nextCommitted? (s.own site) with
      | none => []
      | some a =>
          let executedBy := s.committedBy site a
          if executedBy.card < site.cluster.adoptQuorum then []
          else
            a :: executes site bound
              (s.updateOwn site (Record.apply a executedBy site.cluster.logCapacity))

/-- The requests that a round executes. -/
def roundExecutes (site : Site) (answers : Answers) (s : Agreement) : List AssignedRequest :=
  match answers.viewOf site.me with
  | .tee => []
  | .id primary =>
      let s := (s.honourFlush site).enterView site (.id primary) primary
      if s.mustFlush site || (s.own site).viewChanged then []
      else
        let s := s.prepared site answers (.id primary) primary
        s.executes site (s.own site).queue.length

/-- Execution applies these requests to the own record, and counts them. -/
theorem commitUpTo_eq_foldl (bound : Nat) (s : Agreement) :
    s.commitUpTo site bound =
      ((s.executes site bound).foldl (fun t a =>
          t.updateOwn site (Record.apply a (t.committedBy site a) site.cluster.logCapacity)) s,
        (s.executes site bound).length) := by
  induction bound generalizing s with
  | zero => rfl
  | succ bound ih =>
      rw [commitUpTo, executes]
      cases nextCommitted? (s.own site) with
      | none => rfl
      | some a =>
          by_cases few : (s.committedBy site a).card < site.cluster.adoptQuorum
          · simp only [if_pos few, List.foldl_nil, List.length_nil]
          · simp only [if_neg few, ih, List.foldl_cons, List.length_cons]

/-- A round counts the requests that it executes. -/
theorem count_requestCommitted (answers : Answers) :
    (s.round site answers).events.count .requestCommitted =
      (s.roundExecutes site answers).length := by
  have flushed : (if s.flush then [Event.localFlush] else []).count .requestCommitted = 0 := by
    split <;> rfl
  rw [events_round, List.count_append, flushed, Nat.zero_add, roundExecutes]
  cases answers.viewOf site.me with
  | tee => rfl
  | id primary =>
      dsimp only
      rw [actIn_eq]
      generalize (s.honourFlush site).enterView site (.id primary) primary = entered
      cases entered.mustFlush site with
      | true => rfl
      | false =>
          rw [if_neg (by simp), Bool.false_or, List.count_replicate_self, proceed,
            viewChanged_own_findCommonHistory]
          cases (entered.own site).viewChanged with
          | true => rfl
          | false => exact congrArg Prod.snd (commitUpTo_eq_foldl _ _)

/-- Every request that is executed was queued when it was its turn. -/
theorem exists_of_mem_executes {a : AssignedRequest} (bound : Nat)
    (executed : a ∈ s.executes site bound) :
    ∃ t, Staged site primary copying s t ∧ nextCommitted? (t.own site) = some a := by
  induction bound generalizing s with
  | zero => contradiction
  | succ bound ih =>
      unfold executes at executed
      split at executed
      · contradiction
      · next b next =>
          dsimp only at executed
          split at executed
          · contradiction
          · next quorum =>
              rcases List.mem_cons.mp executed with rfl | later
              · exact ⟨s, .refl, next⟩
              · obtain ⟨t, path, turn⟩ := ih later
                exact ⟨t, .head (.execute s next (Nat.le_of_not_lt quorum)) path, turn⟩

end QuorumList.Agreement
