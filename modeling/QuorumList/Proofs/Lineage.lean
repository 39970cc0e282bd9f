import Mathlib.Logic.Function.Basic
import QuorumList.Proofs.Stages

/-!
The histories behind records.

Whether a request was executed is a question about the history that a record results from.  A record
shows only the end of it, and it takes over the history of another one when it is copied, or when a
common history is adopted.  So `Histories` follows the histories behind all records through a run,
beside the ensemble: a record carries its history with it wherever it arrives, and a round goes on
from the history of one process and adds what it executes.  `documented_run` says that this is told
right, that is, all records result from the histories that are behind them.

What counts as executed is read off the log and the replies.  One reply for each client stands for
all that was executed of it, so a request counts as executed, too, once its client has overtaken it
with a later timestamp.  `Succeeds` says what becomes of pending requests from one phase of a round
to the next: they stay pending, or are overtaken in the history.
-/
namespace QuorumList

/-- A history holds a request of the same client at the same timestamp or a later one. -/
def Overtaken (line : List AssignedRequest) (q : ClientRequest) : Prop :=
  ∃ b ∈ line, b.request.client = q.client ∧ q.timestamp ≤ b.request.timestamp

theorem Overtaken.of_subset {line other : List AssignedRequest} {q : ClientRequest}
    (overtaken : Overtaken line q) (wide : line ⊆ other) : Overtaken other q := by
  obtain ⟨b, member, late⟩ := overtaken
  exact ⟨b, wide member, late⟩

/-! ### Records and their histories -/

namespace Record

variable {capacity : Nat} {line longer : List AssignedRequest} {r other source : Record}
  {q : ClientRequest}

/-- The list is the result of a history, the log shows its end, and the replies are to the last
requests of clients. -/
structure ResultsFrom (capacity : Nat) (line : List AssignedRequest) (r : Record) : Prop where
  state : r.state = stateAfter line
  logged : r.logged = lastEntries capacity line
  replied : ∀ client last, r.lastRequest? client = some last →
    (lastOf? client line).map AssignedRequest.request = some last

namespace ResultsFrom

theorem of_empty (state : r.state = []) (log : r.log = [])
    (replied : ∀ client, r.lastRequest? client = none) : r.ResultsFrom capacity [] where
  state := state
  logged := by simp [Record.logged, log]
  replied := by simp [replied]

theorem new (clients : Nat) : (Record.new clients).ResultsFrom capacity [] := by
  refine .of_empty rfl rfl fun client => ?_
  rw [lastRequest?, Record.new, List.getElem?_replicate]
  split <;> rfl

theorem of_eq (results : r.ResultsFrom capacity line) (state : other.state = r.state)
    (logged : other.logged = r.logged) (replies : other.replies = r.replies) :
    other.ResultsFrom capacity line where
  state := state.trans results.state
  logged := logged.trans results.logged
  replied := by
    unfold lastRequest?
    rw [replies]
    exact results.replied

theorem apply (results : r.ResultsFrom capacity line) (a : AssignedRequest)
    (executedBy : NodeSet) :
    (r.apply a executedBy capacity).ResultsFrom capacity (line ++ [a]) where
  state := by
    rw [stateAfter_append_singleton, ← results.state]
    rfl
  logged := by rw [logged_apply, results.logged, Record.lastEntries_append_singleton]
  replied := by
    intro client last
    rw [lastRequest?_apply, lastOf?_append_singleton]
    split
    · exact id
    · exact results.replied client last

theorem sanitize (results : r.ResultsFrom capacity line) (clients pendingCapacity : Nat) :
    (r.sanitize clients pendingCapacity capacity).ResultsFrom capacity line where
  state := results.state
  logged := by
    have cut : (r.sanitize clients pendingCapacity capacity).logged =
        lastEntries capacity r.logged := map_lastEntries ..
    rw [cut, results.logged, lastEntries_lastEntries]
  replied := by
    intro client last
    rw [lastRequest?, Record.sanitize, getElem?_join_resize]
    split
    · exact results.replied client last
    · exact fun beyond => absurd beyond (Option.some_ne_none _).symm

/-- What counts as executed is overtaken in the history. -/
theorem overtaken (results : r.ResultsFrom capacity line) (executed : r.executed q = true) :
    Overtaken line q := by
  rcases executed_iff.mp executed with ⟨last, reply, late⟩ | ⟨a, logged, sameOrigin⟩
  · obtain ⟨b, isLast, rfl⟩ := Option.map_eq_some_iff.mp (results.replied _ _ reply)
    have ofClient : b.request.client = q.client := by simpa using List.find?_some isLast
    exact ⟨b, List.mem_reverse.mp (List.mem_of_find?_eq_some isLast), ofClient, late⟩
  · rw [results.logged] at logged
    simp only [ClientRequest.sameOrigin, Bool.and_eq_true, decide_eq_true_eq] at sameOrigin
    exact ⟨a, mem_lastEntries logged, sameOrigin.1, Nat.le_of_eq sameOrigin.2.symm⟩

end ResultsFrom

/-- A request is accounted for: it is pending, or overtaken in the history. -/
def AccountsFor (line : List AssignedRequest) (q : ClientRequest) (r : Record) : Prop :=
  q ∈ r.pending ∨ Overtaken line q

/-- One record comes after another: it results from a history, and accounts for what the other had
pending. -/
structure Succeeds (capacity : Nat) (line : List AssignedRequest) (before r : Record) : Prop where
  results : r.ResultsFrom capacity line
  pending : ∀ q ∈ before.pending, r.AccountsFor line q

namespace Succeeds

theorem of_eq (results : r.ResultsFrom capacity line) (state : other.state = r.state)
    (logged : other.logged = r.logged) (replies : other.replies = r.replies)
    (pending : other.pending = r.pending) : Succeeds capacity line r other :=
  ⟨results.of_eq state logged replies, fun _ member => .inl (pending ▸ member)⟩

theorem refl (results : r.ResultsFrom capacity line) : Succeeds capacity line r r :=
  .of_eq results rfl rfl rfl rfl

theorem pruneExecuted (results : r.ResultsFrom capacity line) :
    Succeeds capacity line r r.pruneExecuted := by
  refine ⟨results.of_eq rfl rfl rfl, fun q member => ?_⟩
  cases counted : r.executed q with
  | true => exact .inr (results.overtaken counted)
  | false => exact .inl (List.mem_filter.mpr ⟨member, by simp [counted]⟩)

theorem apply (results : r.ResultsFrom capacity line) (a : AssignedRequest)
    (executedBy : NodeSet) :
    Succeeds capacity (line ++ [a]) r (r.apply a executedBy capacity) := by
  refine ⟨results.apply a executedBy, fun q member => ?_⟩
  cases sameOrigin : q.sameOrigin a.request with
  | false => exact .inl (List.mem_filter.mpr ⟨member, by simp [sameOrigin]⟩)
  | true =>
      simp only [ClientRequest.sameOrigin, Bool.and_eq_true, decide_eq_true_eq] at sameOrigin
      exact .inr ⟨a, List.mem_append_right _ (List.mem_singleton_self _), sameOrigin.1.symm,
        Nat.le_of_eq sameOrigin.2⟩

theorem accountsFor (succeeds : Succeeds capacity longer r other) (wide : line ⊆ longer)
    (accounts : r.AccountsFor line q) : other.AccountsFor longer q := by
  rcases accounts with pending | overtaken
  · exact succeeds.pending q pending
  · exact .inr (overtaken.of_subset wide)

theorem trans (first : Succeeds capacity line r other)
    (second : Succeeds capacity longer other source) (wide : line ⊆ longer) :
    Succeeds capacity longer r source :=
  ⟨second.results, fun q pending => second.accountsFor wide (first.pending q pending)⟩

end Succeeds

end Record

namespace Agreement

variable {site : Site} {s t : Agreement} {primary : NodeId} {answers : Answers}
  {lines : NodeId → List AssignedRequest} {line : List AssignedRequest} {q : ClientRequest}

/-! ### Whose history a round goes on from -/

/-- The process whose history the replica goes on from when it has looked for the common history. -/
def adoptedFrom (site : Site) (s : Agreement) : NodeId :=
  match s.adoptable site with
  | none => site.me
  | some (_, holder) => if s.keeps site holder then site.me else holder

/-- The process whose history the replica goes on from when it has entered a view. -/
def enteredFrom (site : Site) (answers : Answers) (s : Agreement) : NodeId :=
  match answers.viewOf site.me with
  | .tee => site.me
  | .id primary =>
      if s.roundLeads site answers then
        (((s.honourFlush site).trackView site (.id primary)).renewRequests site).adoptedFrom site
      else if s.roundCopies site answers then primary
      else site.me

/-- The process whose history the replica goes on from before it executes anything. -/
def continuedFrom (site : Site) (answers : Answers) (s : Agreement) : NodeId :=
  match answers.viewOf site.me with
  | .tee => site.me
  | .id primary =>
      let adopted := ((s.honourFlush site).enterView site (.id primary) primary).adoptedFrom site
      if adopted = site.me then s.enteredFrom site answers else adopted

/-- The histories behind the records of a table once a flush is honoured. -/
def honouredLines (site : Site) (lines : NodeId → List AssignedRequest) (s : Agreement) :
    NodeId → List AssignedRequest :=
  if s.flush then Function.update lines site.me [] else lines

/-- The history behind the own record after a round, given those behind all records before it. -/
def roundLine (site : Site) (answers : Answers) (lines : NodeId → List AssignedRequest)
    (s : Agreement) : List AssignedRequest :=
  let lines := s.honouredLines site lines
  match answers.viewOf site.me with
  | .tee => lines site.me
  | .id primary =>
      if ((s.honourFlush site).enterView site (.id primary) primary).mustFlush site then []
      else lines (s.continuedFrom site answers) ++ s.roundExecutes site answers

/-! ### Tables and their histories -/

/-- The table of a replica is in order; its records result from these histories, and none of them
has two requests of one origin pending. -/
structure Documented (site : Site) (lines : NodeId → List AssignedRequest) (s : Agreement) :
    Prop where
  inOrder : s.InOrder site
  results : ∀ j, (s.recordOf j).ResultsFrom site.cluster.logCapacity (lines j)
  distinct : ∀ j, DistinctOrigins (s.recordOf j).pending

/-- A replica that looks for the common history changes nothing but the conflict flag, or adopts. -/
theorem own_findCommonHistory (inTable : site.me < s.records.length) :
    (s.adoptedFrom site = site.me ∧ ∃ conflict,
        (s.findCommonHistory site).own site = { s.own site with conflict := conflict }) ∨
      (s.findCommonHistory site).own site =
        adoptFrom (s.recordOf (s.adoptedFrom site)) (s.own site) := by
  unfold adoptedFrom
  cases chosen : s.adoptable site with
  | none =>
      refine .inl ⟨rfl, true, ?_⟩
      rw [findCommonHistory, chosen]
      exact own_updateOwn inTable _
  | some common =>
      obtain ⟨state, holder⟩ := common
      dsimp only
      cases kept : s.keeps site holder with
      | true => exact .inl ⟨rfl, false, own_findCommonHistory_of_keeps inTable chosen kept⟩
      | false =>
          right
          rw [own_findCommonHistory_of_not_keeps inTable chosen kept, (of_adoptable chosen).1]
          rfl

theorem succeeds_adoptFrom {source r : Record} {capacity : Nat}
    (results : source.ResultsFrom capacity line) :
    Record.Succeeds capacity line r (adoptFrom source r) := by
  have taken : ({ r with
      conflict := false
      state := source.state
      log := source.log
      replies := source.replies } : Record).ResultsFrom capacity line := results.of_eq rfl rfl rfl
  have pruned := Record.Succeeds.pruneExecuted taken
  exact ⟨pruned.results, pruned.pending⟩

theorem succeeds_findCommonHistory (inTable : site.me < s.records.length)
    (results : ∀ j, (s.recordOf j).ResultsFrom site.cluster.logCapacity (lines j)) :
    Record.Succeeds site.cluster.logCapacity (lines (s.adoptedFrom site)) (s.own site)
      ((s.findCommonHistory site).own site) := by
  rcases own_findCommonHistory inTable with ⟨isMe, conflict, flagged⟩ | adopted
  · rw [flagged, isMe]
    exact .of_eq (results site.me) rfl rfl rfl rfl
  · rw [adopted]
    exact succeeds_adoptFrom (results _)

/-! ### Entering a view -/

theorem results_of_own
    (results : ∀ j, (s.recordOf j).ResultsFrom site.cluster.logCapacity (lines j))
    (others : ∀ j, j ≠ site.me → t.recordOf j = s.recordOf j)
    (own : (t.own site).ResultsFrom site.cluster.logCapacity line) (j : NodeId) :
    (t.recordOf j).ResultsFrom site.cluster.logCapacity (Function.update lines site.me line j) := by
  by_cases isMe : j = site.me
  · subst isMe
    rw [Function.update_self]
    exact own
  · rw [Function.update_of_ne isMe, others j isMe]
    exact results j

namespace Documented

variable (documented : s.Documented site lines)
include documented

theorem of_own (inOrder : t.InOrder site)
    (others : ∀ j, j ≠ site.me → t.recordOf j = s.recordOf j)
    (results : (t.own site).ResultsFrom site.cluster.logCapacity line)
    (distinct : DistinctOrigins (t.own site).pending) :
    t.Documented site (Function.update lines site.me line) := by
  refine ⟨inOrder, results_of_own documented.results others results, fun j => ?_⟩
  by_cases isMe : j = site.me
  · subst isMe
    exact distinct
  · rw [others j isMe]
    exact documented.distinct j

theorem updateOwn {f : Record → Record} (inOrder : (s.updateOwn site f).InOrder site)
    (results : (f (s.own site)).ResultsFrom site.cluster.logCapacity line)
    (distinct : DistinctOrigins (f (s.own site)).pending) :
    (s.updateOwn site f).Documented site (Function.update lines site.me line) := by
  have isOwn := own_updateOwn documented.inOrder.inTable f
  exact documented.of_own inOrder (fun j other => recordOf_updateOwn_of_ne other f s)
    (isOwn ▸ results) (isOwn ▸ distinct)

theorem honourFlush : (s.honourFlush site).Documented site (s.honouredLines site lines) := by
  have inOrder := documented.inOrder.flushOwn
  unfold Agreement.honourFlush honouredLines
  split
  · have flushed := documented.updateOwn inOrder (.new _) .nil
    exact ⟨⟨inOrder.inTable, inOrder.fit, inOrder.own⟩, flushed.results, flushed.distinct⟩
  · exact documented

theorem trackView (view : View) : (s.trackView site view).Documented site lines := by
  have inOrder := documented.inOrder.trackView view
  by_cases same : (s.own site).view = view
  · rwa [Agreement.trackView, if_pos same]
  · rw [Agreement.trackView, if_neg same] at inOrder ⊢
    have noticed := documented.updateOwn inOrder ((documented.results _).of_eq rfl rfl rfl)
      (documented.distinct _)
    rwa [Function.update_eq_self] at noticed

theorem renewRequests : (s.renewRequests site).Documented site lines := by
  have renewed := documented.updateOwn documented.inOrder.renewRequests
    ((documented.results _).of_eq rfl rfl rfl) (distinctOrigins_renewedRequests site s)
  rwa [Function.update_eq_self] at renewed

end Documented

/-- Entering a view, a replica leads it, or copies the record of the primary, or only notices it. -/
theorem own_enterView (inTable : site.me < s.records.length)
    (told : answers.viewOf site.me = .id primary) :
    let noticed := (s.honourFlush site).trackView site (.id primary)
    let entered := (s.honourFlush site).enterView site (.id primary) primary
    (s.roundLeads site answers = true ∧ s.roundCopies site answers = false ∧
        entered.own site = { ((noticed.renewRequests site).findCommonHistory site).own site with
          viewChanged := false }) ∨
      (s.roundLeads site answers = false ∧ s.roundCopies site answers = true ∧
        primary ≠ site.me ∧
        entered.own site = copyFrom (s.recordOf primary) (noticed.own site)) ∨
      (s.roundLeads site answers = false ∧ s.roundCopies site answers = false ∧
        entered.own site = noticed.own site) := by
  dsimp only
  have inNoticed : site.me <
      ((s.honourFlush site).trackView site (.id primary)).records.length := by
    rwa [length_records_trackView, length_records_honourFlush]
  by_cases isMe : primary = site.me
  · subst isMe
    have keeps : s.roundCopies site answers = false := by simp [roundCopies, told]
    unfold roundLeads enterView changeView leadView
    simp only [told, keeps, if_true]
    generalize (s.honourFlush site).trackView site (.id site.me) = noticed at inNoticed
    cases waiting : (noticed.own site).viewChanged with
    | false => simp
    | true =>
        by_cases quorum : site.cluster.establishQuorum ≤ noticed.readyFor (.id site.me)
        · have inFound : site.me <
              ((noticed.renewRequests site).findCommonHistory site).records.length := by
            rwa [length_records_findCommonHistory, renewRequests, length_records_updateOwn]
          simp [quorum, own_updateOwn inFound]
        · simp [quorum]
  · have follows : s.roundLeads site answers = false := by simp [roundLeads, told, isMe]
    unfold roundCopies enterView changeView
    simp only [told, follows, if_neg isMe]
    have shown : ((s.honourFlush site).trackView site (.id primary)).recordOf primary =
        s.recordOf primary := recordOf_noticed isMe _
    generalize (s.honourFlush site).trackView site (.id primary) = noticed at inNoticed shown
    cases waiting : (noticed.own site).viewChanged with
    | false => simp
    | true =>
        unfold followView
        simp only [if_true]
        split
        · simp [waiting]
        · simp [own_updateOwn inNoticed, copyFrom, shown, isMe]

theorem results_enterView (documented : (s.honourFlush site).Documented site lines)
    (told : answers.viewOf site.me = .id primary) :
    (((s.honourFlush site).enterView site (.id primary) primary).own site).ResultsFrom
      site.cluster.logCapacity (lines (s.enteredFrom site answers)) := by
  have noticed := documented.trackView (.id primary)
  rcases own_enterView (length_records_honourFlush ▸ documented.inOrder.inTable) told with
    ⟨leads, -, entered⟩ | ⟨follows, copies, another, entered⟩ | ⟨follows, keeps, entered⟩
  · have found := succeeds_findCommonHistory noticed.renewRequests.inOrder.inTable
      noticed.renewRequests.results
    simp only [entered, enteredFrom, told, leads, if_true]
    exact found.results.of_eq rfl rfl rfl
  · have shown := noticed.results primary
    rw [recordOf_noticed another] at shown
    simp only [entered, enteredFrom, told, follows, copies]
    exact shown.of_eq rfl rfl rfl
  · simp only [entered, enteredFrom, told, follows, keeps]
    exact noticed.results site.me

/-- What is pending and has not been overtaken is accounted for when a view is entered, unless the
record of the primary is copied. -/
theorem accountsFor_enterView (documented : (s.honourFlush site).Documented site lines)
    (told : answers.viewOf site.me = .id primary) (keeps : s.roundCopies site answers = false)
    (pending : q ∈ ((s.honourFlush site).own site).pending)
    (fresh : ¬ Overtaken (lines site.me) q) :
    (((s.honourFlush site).enterView site (.id primary) primary).own site).AccountsFor
      (lines (s.enteredFrom site answers)) q := by
  have noticed := documented.trackView (.id primary)
  rw [← pending_own_trackView (.id primary)] at pending
  rcases own_enterView (length_records_honourFlush ▸ documented.inOrder.inTable) told with
    ⟨leads, -, entered⟩ | ⟨-, copies, -, -⟩ | ⟨follows, -, entered⟩
  · have unexecuted : (((s.honourFlush site).trackView site (.id primary)).own site).executed q =
        false := by
      refine Bool.eq_false_iff.mpr fun executed => fresh ?_
      exact (noticed.results site.me).overtaken executed
    have found := succeeds_findCommonHistory noticed.renewRequests.inOrder.inTable
      noticed.renewRequests.results
    simp only [entered, enteredFrom, told, leads, if_true]
    refine found.pending q ?_
    rw [renewRequests, own_updateOwn noticed.inOrder.inTable]
    exact mem_renewedRequests_of_pending (noticed.distinct site.me)
      noticed.inOrder.own.fits.pending pending unexecuted
  · rw [copies] at keeps
    contradiction
  · rw [entered]
    exact .inl pending

theorem accountsFor_enterView_of_copies (inTable : site.me < s.records.length)
    (told : answers.viewOf site.me = .id primary) (copies : s.roundCopies site answers = true)
    (known : (s.recordOf primary).AccountsFor (lines primary) q) :
    (((s.honourFlush site).enterView site (.id primary) primary).own site).AccountsFor
      (lines (s.enteredFrom site answers)) q := by
  rcases own_enterView inTable told with
    ⟨-, keeps, -⟩ | ⟨follows, -, -, entered⟩ | ⟨-, keeps, -⟩
  · rw [copies] at keeps
    contradiction
  · rw [entered, enteredFrom, told]
    simp only [follows, copies]
    exact known
  · rw [copies] at keeps
    contradiction

/-! ### Moving requests on -/

theorem succeeds_tidy (inTable : site.me < s.records.length)
    (results : (s.own site).ResultsFrom site.cluster.logCapacity line) (view : View) :
    Record.Succeeds site.cluster.logCapacity line (s.own site) ((s.tidy site view).own site) := by
  have pruned (r : Record) (state : r.state = (s.own site).state)
      (logged : r.logged = (s.own site).logged) (replies : r.replies = (s.own site).replies)
      (pending : r.pending = (s.own site).pending) :
      Record.Succeeds site.cluster.logCapacity line (s.own site) r.pruneExecuted :=
    (Record.Succeeds.of_eq results state logged replies pending).trans
      (.pruneExecuted (results.of_eq state logged replies)) (List.Subset.refl line)
  unfold tidy
  dsimp only
  rw [own_updateOwn (by rwa [length_records_updateOwn]), own_updateOwn inTable]
  split
  · exact pruned _ rfl (map_request_executedBy ..) rfl rfl
  · exact pruned _ rfl (map_request_executedBy ..) rfl rfl

theorem succeeds_commitUpTo (bound : Nat) (inTable : site.me < s.records.length)
    (results : (s.own site).ResultsFrom site.cluster.logCapacity line) :
    Record.Succeeds site.cluster.logCapacity (line ++ s.executes site bound) (s.own site)
      ((s.commitUpTo site bound).1.own site) := by
  induction bound generalizing s line with
  | zero => simpa [executes, commitUpTo] using Record.Succeeds.refl results
  | succ bound ih =>
      rw [commitUpTo, executes]
      cases nextCommitted? (s.own site) with
      | none => simpa using Record.Succeeds.refl results
      | some a =>
          by_cases few : (s.committedBy site a).card < site.cluster.adoptQuorum
          · simpa [few] using Record.Succeeds.refl results
          · have applied := own_updateOwn inTable
              (Record.apply a (s.committedBy site a) site.cluster.logCapacity)
            have first := Record.Succeeds.apply results a (s.committedBy site a)
            have later := ih (by rwa [length_records_updateOwn]) (applied ▸ first.results)
            simp only [if_neg few]
            rw [List.append_cons]
            exact (applied ▸ first).trans later (List.subset_append_left _ _)

/-- Until it executes anything, a round that goes on in a view only looks for the common history. -/
theorem succeeds_prepared (answers : Answers) (primary : NodeId)
    (inTable : site.me < s.records.length)
    (results : ∀ j, (s.recordOf j).ResultsFrom site.cluster.logCapacity (lines j)) :
    Record.Succeeds site.cluster.logCapacity (lines (s.adoptedFrom site)) (s.own site)
      ((s.prepared site answers (.id primary) primary).own site) := by
  have found := succeeds_findCommonHistory inTable results
  have more : ((s.findCommonHistory site).own site).QueuesMore
      ((s.prepared site answers (.id primary) primary).own site) :=
    queuesMore_prepared inTable (.id primary) primary
  exact found.trans (.of_eq found.results more.state more.logged more.replies more.pending)
    (List.Subset.refl _)

theorem succeeds_proceed (answers : Answers) (primary : NodeId)
    (inTable : site.me < s.records.length)
    (results : ∀ j, (s.recordOf j).ResultsFrom site.cluster.logCapacity (lines j)) :
    Record.Succeeds site.cluster.logCapacity
      (lines (s.adoptedFrom site) ++
        if (s.own site).viewChanged then []
        else
          (s.prepared site answers (.id primary) primary).executes site
            ((s.prepared site answers (.id primary) primary).own site).queue.length)
      (s.own site) ((s.proceed site answers (.id primary) primary).1.own site) := by
  cases waiting : (s.own site).viewChanged with
  | true =>
      have inFound : site.me < (s.findCommonHistory site).records.length := by
        rwa [length_records_findCommonHistory]
      have found := succeeds_findCommonHistory inTable results
      have stays : ((s.findCommonHistory site).own site).viewChanged = true :=
        viewChanged_own_findCommonHistory.trans waiting
      have same : (s.proceed site answers (.id primary) primary).1 =
          (s.findCommonHistory site).tidy site (.id primary) := by
        unfold proceed
        dsimp only
        rw [if_pos stays]
      rw [same, if_pos rfl, List.append_nil]
      exact found.trans (succeeds_tidy inFound found.results _) (List.Subset.refl _)
  | false =>
      have inPrepared : site.me <
          (s.prepared site answers (.id primary) primary).records.length := by
        rwa [length_records_prepared]
      have prepared := succeeds_prepared answers primary inTable results
      have executed := succeeds_commitUpTo
        ((s.prepared site answers (.id primary) primary).own site).queue.length inPrepared
        prepared.results
      have inCommitted : site.me <
          ((s.prepared site answers (.id primary) primary).commit site).1.records.length := by
        rwa [commit, length_records_commitUpTo]
      rw [proceed_of_settled waiting, if_neg Bool.false_ne_true]
      exact (prepared.trans executed (List.subset_append_left _ _)).trans
        (succeeds_tidy inCommitted executed.results _) (List.Subset.refl _)

/-! ### A round -/

/-- Once the view is entered, the round goes on from one history, and adds what it executes. -/
theorem succeeds_round (documented : s.Documented site lines)
    (told : answers.viewOf site.me = .id primary)
    (calm : ((s.honourFlush site).enterView site (.id primary) primary).mustFlush site = false) :
    Record.Succeeds site.cluster.logCapacity (s.roundLine site answers lines)
      (((s.honourFlush site).enterView site (.id primary) primary).own site)
      ((s.round site answers).state.own site) := by
  have honoured := documented.honourFlush
  have inEntered : site.me <
      ((s.honourFlush site).enterView site (.id primary) primary).records.length := by
    rw [length_records_enterView]
    exact honoured.inOrder.inTable
  have results := results_of_own honoured.results
    (fun j other => recordOf_enterView_of_ne other (.id primary) primary)
    (results_enterView honoured told)
  have source : Function.update (s.honouredLines site lines) site.me
      (s.honouredLines site lines (s.enteredFrom site answers))
        (((s.honourFlush site).enterView site (.id primary) primary).adoptedFrom site) =
      s.honouredLines site lines (s.continuedFrom site answers) := by
    simp only [continuedFrom, told, Function.update_apply]
    split <;> rfl
  have goesOn := succeeds_proceed answers primary inEntered results
  have after : (s.round site answers).state =
      (((s.honourFlush site).enterView site (.id primary) primary).proceed site answers
        (.id primary) primary).1 := by
    rw [state_round, told]
    dsimp only
    rw [actIn_eq, calm]
    rfl
  rw [source, ← after] at goesOn
  simpa only [roundLine, roundExecutes, told, calm, Bool.false_or, Bool.false_eq_true, if_false]
    using goesOn

theorem results_round (documented : s.Documented site lines) (answers : Answers) :
    ((s.round site answers).state.own site).ResultsFrom site.cluster.logCapacity
      (s.roundLine site answers lines) := by
  have honoured := documented.honourFlush
  cases told : answers.viewOf site.me with
  | tee =>
      rw [state_round, roundLine, told]
      exact honoured.results site.me
  | id primary =>
      cases must : ((s.honourFlush site).enterView site (.id primary) primary).mustFlush site with
      | false => exact (succeeds_round documented told must).results
      | true =>
          have inEntered : site.me <
              ((s.honourFlush site).enterView site (.id primary) primary).records.length := by
            rw [length_records_enterView]
            exact honoured.inOrder.inTable
          have dropped : (s.round site answers).state.own site = .new site.cluster.clients := by
            rw [state_round, told]
            dsimp only
            rw [actIn_eq, must, if_pos rfl]
            exact own_updateOwn (by exact inEntered) _
          simp only [dropped, roundLine, told, must, if_true]
          exact .new _

theorem Stage.distinct {copying : Bool} (stage : Stage site primary copying s t)
    (inTable : site.me < s.records.length)
    (distinct : ∀ j, DistinctOrigins (s.recordOf j).pending) :
    ∀ j, DistinctOrigins (t.recordOf j).pending := by
  suffices own : DistinctOrigins (t.own site).pending by
    intro j
    by_cases isMe : j = site.me
    · subst isMe
      exact own
    · rw [stage.others isMe]
      exact distinct j
  have ofOwn : DistinctOrigins (s.own site).pending := distinct site.me
  cases stage with
  | renew =>
      rw [renewRequests, own_updateOwn inTable]
      exact distinctOrigins_renewedRequests site s
  | copy =>
      rw [own_updateOwn inTable]
      exact distinct primary
  | adopt | execute =>
      rw [own_updateOwn inTable]
      exact ofOwn.sublist List.filter_sublist
  | tidy =>
      unfold Agreement.tidy
      dsimp only
      rw [own_updateOwn (by rwa [length_records_updateOwn]), own_updateOwn inTable]
      split
      · exact ofOwn.sublist List.filter_sublist
      · exact ofOwn.sublist List.filter_sublist
  | notice | flag | lead | accept =>
      rw [own_updateOwn inTable]
      exact ofOwn
  | prepare =>
      rw [prepareToCommit, own_updateOwn inTable]
      exact ofOwn
  | assign =>
      rw [assign_eq inTable, own_updateOwn inTable]
      exact ofOwn

/-- A round leaves no two requests of one origin pending, wherever it takes them from. -/
theorem distinct_round (documented : s.Documented site lines) (answers : Answers) :
    DistinctOrigins ((s.round site answers).state.own site).pending := by
  have honoured := documented.honourFlush
  have inTable := documented.inOrder.inTable
  rcases round_stages inTable answers with ⟨-, fresh⟩ | ⟨-, ⟨-, same⟩ | ⟨primary, -, staged⟩⟩
  · rw [fresh]
    exact .nil
  · rw [same]
    exact honoured.distinct site.me
  · refine staged.keeps (P := fun t => ∀ j, DistinctOrigins (t.recordOf j).pending)
      honoured.distinct (fun t u path stage => ?_) site.me
    refine stage.distinct ?_
    rw [path.length]
    exact honoured.inOrder.inTable

/-- A round keeps the table documented, with the history that it goes on from. -/
theorem Documented.round (documented : s.Documented site lines) (answers : Answers) :
    (s.round site answers).state.Documented site
      (Function.update lines site.me (s.roundLine site answers lines)) :=
  documented.of_own (documented.inOrder.round answers)
    (fun _ other => recordOf_round_of_ne other answers) (results_round documented answers)
    (distinct_round documented answers)

/-! ### Between rounds -/

namespace Documented

theorem new (member : site.me < site.cluster.size) :
    (Agreement.new site).Documented site fun _ => [] := by
  have fresh : ∀ j, ((Agreement.new site).recordOf j).ResultsFrom site.cluster.logCapacity [] ∧
      DistinctOrigins ((Agreement.new site).recordOf j).pending := by
    intro j
    by_cases inRange : j < (Agreement.new site).records.length
    · rw [List.eq_of_mem_replicate (recordOf_mem inRange)]
      exact ⟨.new _, .nil⟩
    · rw [recordOf_eq_blank (Nat.le_of_not_lt inRange)]
      exact ⟨.of_empty rfl rfl fun _ => rfl, .nil⟩
  exact ⟨.new member, fun j => (fresh j).1, fun j => (fresh j).2⟩

theorem submit (documented : s.Documented site lines) (q : ClientRequest) :
    ((s.submit site q).toOption.getD s).Documented site lines := by
  have inOrder := documented.inOrder.submit q
  rcases submit_eq_or site s q with same | ⟨bufferable, buffered⟩
  · rwa [same]
  · rw [buffered] at inOrder ⊢
    have more := documented.updateOwn inOrder ((documented.results _).of_eq rfl rfl rfl)
      ((documented.distinct _).append_singleton bufferable.fresh)
    rwa [Function.update_eq_self] at more

theorem receive (documented : s.Documented site lines) {sender : NodeId} {r : Record}
    (inTable : site.isPeer sender = true → sender < s.records.length)
    (results : r.ResultsFrom site.cluster.logCapacity line)
    (distinct : DistinctOrigins r.pending) :
    (s.receive site sender r).Documented site
      (if site.isPeer sender then Function.update lines sender line else lines) := by
  have inOrder := documented.inOrder.receive sender r
  by_cases peer : site.isPeer sender = true
  · have shown := recordOf_receive peer (inTable peer) r
    rw [if_pos peer]
    refine ⟨inOrder, fun j => ?_, fun j => ?_⟩
    · rw [shown, Function.update_apply]
      split
      · exact results.sanitize _ _
      · exact documented.results j
    · rw [shown]
      split
      · exact distinct.sublist (List.take_sublist ..)
      · exact documented.distinct j
  · rw [Agreement.receive, if_neg peer, if_neg peer]
    exact documented

theorem call (documented : s.Documented site lines) {function : Function} {reply : Reply}
    (answered : s.call site function = .ok (reply, t)) : t.Documented site lines := by
  have same : ∀ j, t.recordOf j = s.recordOf j := fun j => by
    rw [recordOf, records_call answered, recordOf]
  refine ⟨documented.inOrder.call answered, fun j => ?_, fun j => ?_⟩
  · rw [same]
    exact documented.results j
  · rw [same]
    exact documented.distinct j

end Documented

end Agreement

namespace Ensemble

variable {c : Cluster} {e : Ensemble} {k : NodeId} {s : Agreement}

/-! ### Histories beside an ensemble -/

/-- The histories behind the records of an ensemble. -/
structure Histories where
  /-- Those behind the records that a replica holds, by replica and process. -/
  held : NodeId → NodeId → List AssignedRequest
  /-- Those behind the records that were broadcast, by index. -/
  sent : Nat → List AssignedRequest

namespace Histories

/-- Nothing has been executed. -/
def empty : Histories :=
  { held := fun _ _ => []
    sent := fun _ => [] }

/-- Replace the histories behind the records that a replica holds. -/
def put (k : NodeId) (lines : NodeId → List AssignedRequest) (h : Histories) : Histories :=
  { h with held := Function.update h.held k lines }

/-- What an action makes of the histories behind an ensemble.  A record carries its history with it
wherever it arrives, and only a round puts another one behind a record. -/
def note (c : Cluster) (e : Ensemble) (h : Histories) : Action → Histories
  | .submit _ _ => h
  | .deliver receiver index =>
      match e.replicas[receiver]?, e.sent[index]? with
      | some _, some (sender, _) =>
          h.put receiver
            (if (c.siteOf receiver).isPeer sender then
              Function.update (h.held receiver) sender (h.sent index)
            else h.held receiver)
      | _, _ => h
  | .round k answers =>
      match e.replicas[k]? with
      | none => h
      | some s =>
          let line := s.roundLine (c.siteOf k) answers (h.held k)
          { h.put k (Function.update (h.held k) k line) with
            sent := Function.update h.sent e.sent.length line }
  | .ask _ _ => h

end Histories

/-- An ensemble after a sequence of actions, and the histories behind its records. -/
def chronicle (c : Cluster) (actions : List Action) : Ensemble × Histories :=
  actions.foldl (fun now action => (now.1.act c action, now.2.note c now.1 action))
    (start c, .empty)

/-- The histories behind the records of an ensemble after a sequence of actions. -/
def histories (c : Cluster) (actions : List Action) : Histories :=
  (chronicle c actions).2

theorem chronicle_eq (c : Cluster) (actions : List Action) :
    chronicle c actions = (run c actions, histories c actions) := by
  suffices same : (chronicle c actions).1 = run c actions by rw [← same, histories]
  induction actions using List.reverseRecOn with
  | nil => rfl
  | append_singleton actions action ih =>
      rw [chronicle, run, List.foldl_append, List.foldl_append, ← chronicle, ← run, ← ih]
      rfl

theorem histories_append_singleton (c : Cluster) (actions : List Action) (action : Action) :
    histories c (actions ++ [action]) = (histories c actions).note c (run c actions) action := by
  rw [histories, chronicle, List.foldl_append, ← chronicle, chronicle_eq]
  rfl

/-- Every replica has a table that is documented by the histories, and so is what was broadcast. -/
structure Documented (c : Cluster) (e : Ensemble) (h : Histories) : Prop where
  sized : e.Sized c
  tables : ∀ k (s : Agreement), e.replicas[k]? = some s →
    s.Documented (c.siteOf k) (h.held k)
  sent : ∀ i (m : NodeId × Record), e.sent[i]? = some m →
    m.2.ResultsFrom c.logCapacity (h.sent i) ∧ DistinctOrigins m.2.pending

variable {h : Histories}

theorem documented_start (c : Cluster) : Documented c (start c) .empty where
  sized := sized_start c
  tables := by
    intro k s found
    have inRange := (sized_start c k s found).1
    obtain rfl := replicas_start found
    exact .new inRange
  sent := by
    intro i m arrived
    simp [start] at arrived

namespace Documented

variable (documented : Documented c e h)
include documented

theorem tables_put {lines : NodeId → List AssignedRequest}
    (changed : s.Documented (c.siteOf k) lines) :
    ∀ j (t : Agreement), (e.put k s).replicas[j]? = some t →
      t.Documented (c.siteOf j) (Function.update h.held k lines j) := by
  intro j t found
  rcases replicas_put found with ⟨rfl, rfl⟩ | ⟨other, before⟩
  · rwa [Function.update_self]
  · rw [Function.update_of_ne other]
    exact documented.tables j t before

theorem put (sized : (e.put k s).Sized c) {lines : NodeId → List AssignedRequest}
    (changed : s.Documented (c.siteOf k) lines) : Documented c (e.put k s) (h.put k lines) :=
  ⟨sized, documented.tables_put changed, documented.sent⟩

/-- Every action keeps the ensemble documented. -/
theorem act (action : Action) : Documented c (e.act c action) (h.note c e action) := by
  have sized := documented.sized.act action
  cases action with
  | submit k q =>
      rw [Ensemble.act] at sized ⊢
      rw [Histories.note]
      cases found : e.replicas[k]? with
      | none => exact documented
      | some s =>
          rw [found] at sized
          exact ⟨sized, forall_put documented.tables ((documented.tables k s found).submit q),
            documented.sent⟩
  | deliver receiver index =>
      rw [Ensemble.act] at sized ⊢
      rw [Histories.note]
      cases found : e.replicas[receiver]? with
      | none => exact documented
      | some s =>
          cases arrived : e.sent[index]? with
          | none => exact documented
          | some m =>
              rw [found, arrived] at sized
              obtain ⟨results, distinct⟩ := documented.sent index m arrived
              have inTable (peer : (c.siteOf receiver).isPeer m.1 = true) :
                  m.1 < s.records.length := by
                rw [(documented.sized receiver s found).2]
                exact (Site.isPeer_iff.mp peer).2
              exact documented.put sized
                ((documented.tables receiver s found).receive inTable results distinct)
  | round k answers =>
      rw [Ensemble.act] at sized ⊢
      rw [Histories.note]
      cases found : e.replicas[k]? with
      | none => exact documented
      | some s =>
          rw [found] at sized
          dsimp only at sized ⊢
          have after := (documented.tables k s found).round answers
          refine ⟨sized, documented.tables_put after, fun i m arrived => ?_⟩
          dsimp only at arrived ⊢
          by_cases now : i = e.sent.length
          · subst now
            rw [List.getElem?_concat_length] at arrived
            obtain rfl := Option.some.inj arrived
            have results := after.results (c.siteOf k).me
            rw [Function.update_self] at results ⊢
            exact ⟨results, after.distinct k⟩
          · have before : e.sent[i]? = some m := by
              rw [List.getElem?_append] at arrived
              split at arrived
              · exact arrived
              · have beyond : 1 ≤ i - e.sent.length := by omega
                rw [List.getElem?_eq_none beyond] at arrived
                contradiction
            rw [Function.update_of_ne now]
            exact documented.sent i m before
  | ask k function =>
      rw [Ensemble.act] at sized ⊢
      rw [Histories.note]
      cases found : e.replicas[k]? with
      | none => exact documented
      | some s =>
          rw [found] at sized
          dsimp only at sized ⊢
          cases answered : s.call (c.siteOf k) function with
          | error => exact documented
          | ok result =>
              rw [answered] at sized
              exact ⟨sized, forall_put documented.tables
                ((documented.tables k s found).call answered), documented.sent⟩

end Documented

theorem documented_run (c : Cluster) (actions : List Action) :
    Documented c (run c actions) (histories c actions) := by
  induction actions using List.reverseRecOn with
  | nil => exact documented_start c
  | append_singleton actions action ih =>
      rw [run_append_singleton, histories_append_singleton]
      exact ih.act action

end Ensemble

end QuorumList
