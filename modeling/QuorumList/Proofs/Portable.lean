import QuorumList.Proofs.Snapshots
import QuorumList.Proofs.Strangers
import QuorumList.Proofs.Vigil

/-!
States that can be written.

While processes only hear from processes like them, all numbers they come across can be written:
views are numbers of processes, sequence numbers and beats are bounded, and everything else goes
back to the requests of clients.  Besides, every record keeps within the bounds of the cluster, but
for the queue of the process itself, which nobody cuts.
-/
namespace QuorumList

open Json

variable {site : Site} {answers : Answers} {k : NodeId}

/-! ### Views and announcements -/

theorem View.Writable.successor {view : View} {n : Nat} (few : n ≤ maxSigned + 1) :
    (view.successor n).Writable := by
  cases view with
  | tee => exact Nat.zero_le _
  | id node =>
      have below := Nat.mod_lt (node + 1) (show 0 < max n 1 by omega)
      have bound : max n 1 ≤ maxSigned + 1 := Nat.max_le.mpr ⟨few, by decide⟩
      exact Nat.le_of_lt_succ (Nat.lt_of_lt_of_le below bound)

theorem NodeSet.writable_filterBelow {n : Nat} (few : n ≤ maxSigned + 1) (p : NodeId → Bool) :
    (filterBelow n p).Writable := fun k inSet =>
  have below : k < n := (mem_filterBelow.mp inSet).1
  Nat.le_trans (Nat.le_of_lt below) (Nat.le_trans few (by decide))

theorem ViewPair.writable_reset : ViewPair.reset.Writable :=
  ⟨trivial, Nat.zero_le _⟩

theorem ViewPair.writable_initial : ViewPair.initial.Writable :=
  ⟨Nat.zero_le _, Nat.zero_le _⟩

namespace Establishment

variable {s : Establishment} {stance : Stance}

namespace Writable

theorem new (member : site.me < site.cluster.size) : (Establishment.new site).Writable site where
  sized := sized_new member
  pairs := fun _ inPairs => List.eq_of_mem_replicate inPairs ▸ ViewPair.writable_initial
  echoes := fun _ inEchoes => List.eq_of_mem_replicate inEchoes ▸ nofun

theorem pairOf (fits : s.Writable site) (k : NodeId) : (s.pairOf k).Writable := by
  rw [Establishment.pairOf, List.getD_eq_getElem?_getD]
  cases found : s.pairs[k]? with
  | none => exact ViewPair.writable_initial
  | some pair => exact fits.pairs pair (List.mem_of_getElem? found)

theorem stanceOf (fits : s.Writable site) (k : NodeId) : (s.stanceOf k).Writable :=
  fits.pairOf k

theorem own (fits : s.Writable site) : (s.own site).Writable :=
  fits.pairOf site.me

theorem sanitizePeers (fits : s.Writable site) : (s.sanitizePeers site).Writable site where
  sized := fits.sized.sanitizePeers
  pairs := by
    intro pair member
    obtain ⟨k, inTable, rfl⟩ := List.mem_mapIdx.mp member
    dsimp only
    split
    · exact ViewPair.writable_reset
    · exact fits.pairs _ (List.getElem_mem inTable)
  echoes := fits.echoes

theorem setOwn (fits : s.Writable site) (written : stance.Writable) :
    (s.setOwn site stance).Writable site where
  sized := fits.sized.setOwn stance
  pairs := by
    intro pair member
    rcases List.mem_or_eq_of_mem_set member with old | rfl
    · exact fits.pairs pair old
    · exact written
  echoes := fits.echoes

theorem of_wish (fits : s.Writable site) (wanted : Bool) :
    ({ s with changeWanted := wanted } : Establishment).Writable site :=
  ⟨⟨fits.sized.member, fits.sized.pairs, fits.sized.phases, fits.sized.echoes⟩, fits.pairs,
    fits.echoes⟩

theorem resetAll (fits : s.Writable site) : s.resetAll.state.Writable site where
  sized := fits.sized.resetAll
  pairs := by
    intro pair member
    obtain ⟨-, -, rfl⟩ := List.mem_map.mp member
    exact ViewPair.writable_reset
  echoes := by
    intro o member
    obtain ⟨-, -, rfl⟩ := List.mem_map.mp member
    exact nofun

theorem adoptedPair {mine target : ViewPair} (ofMine : mine.Writable) (ofTarget : target.Writable) :
    (Establishment.adoptedPair mine target).Writable := by
  unfold Establishment.adoptedPair
  dsimp only
  split
  · exact ofTarget
  · exact ⟨ofMine.current, ofTarget.next⟩

theorem perform (fits : s.Writable site) (few : site.cluster.size ≤ maxSigned + 1)
    (action : Case) : (s.perform site action).state.Writable site := by
  have own : (s.own site).pair.Writable := fits.own
  cases action with
  | adopt k =>
      refine Writable.of_wish (fits.setOwn ?_) _
      exact adoptedPair own (fits.pairOf k)
  | advance =>
      unfold Establishment.perform
      dsimp only
      split
      · refine Writable.of_wish (fits.setOwn ?_) _
        exact ⟨own.current, View.Writable.successor few⟩
      · refine fits.setOwn ?_
        exact ⟨own.next, own.next⟩
  | stay => exact fits.of_wish _
  | reset => exact fits.resetAll

theorem round (fits : s.Writable site) (few : site.cluster.size ≤ maxSigned + 1)
    (answers : Answers) : (s.round site answers).state.Writable site :=
  round_cases (P := fun outcome => outcome.state.Writable site) fits.sanitizePeers.resetAll
    fun _ _ => fits.sanitizePeers.perform few _

theorem receive (fits : s.Writable site) (sender : NodeId) {a : Announcement}
    (written : a.Writable) : (s.receive site sender a).Writable site := by
  refine ⟨fits.sized.receive sender a, fun pair member => ?_, fun o member => ?_⟩
  · unfold Establishment.receive at member
    split at member
    · rcases List.mem_or_eq_of_mem_set member with old | rfl
      · exact fits.pairs pair old
      · exact written.stance
    · exact fits.pairs pair member
  · unfold Establishment.receive at member
    split at member
    · rcases List.mem_or_eq_of_mem_set member with old | rfl
      · exact fits.echoes o old
      · rintro _ ⟨⟩
        exact written.echo
    · exact fits.echoes o member

theorem announcements (fits : s.Writable site) (honest : site.switches.misbehaviour = none)
    {sent : NodeId × Announcement} (announced : sent ∈ s.announcements site) :
    sent.2.Writable := by
  obtain ⟨k, -, rfl⟩ := List.mem_map.mp announced
  rw [announcementTo, honest]
  exact ⟨fits.own, fits.stanceOf k⟩

theorem currentView (fits : s.Writable site) (unforced : site.switches.forceView = none)
    (k : NodeId) : (s.currentView site k).Writable := by
  have ofOwn : (s.ownView site).Writable := by
    unfold ownView
    rw [unforced]
    dsimp only
    split
    · exact fits.own.current
    · trivial
  unfold Establishment.currentView
  split
  · trivial
  · split
    · exact ofOwn
    · exact (fits.pairOf k).current

end Writable

end Establishment

/-! ### Opinions -/

namespace Monitoring

variable {s : Monitoring} {o : Opinion}

namespace Writable

theorem new (site : Site) : (Monitoring.new site).Writable site where
  length := List.length_replicate
  opinions := fun _ member =>
    List.eq_of_mem_replicate member ▸ ⟨trivial, fun _ inSet => absurd inSet List.not_mem_nil⟩

theorem set (fits : s.Writable site) (written : o.Writable) (k : NodeId) :
    ({ opinions := s.opinions.set k o } : Monitoring).Writable site := by
  refine ⟨List.length_set.trans fits.length, fun p member => ?_⟩
  rcases List.mem_or_eq_of_mem_set member with old | rfl
  · exact fits.opinions p old
  · exact written

theorem round (fits : s.Writable site) (member : site.me < site.cluster.size)
    (few : site.cluster.size ≤ maxSigned + 1) (ofView : (answers.viewOf site.me).Writable) :
    (s.round site answers).state.Writable site := by
  have formed : (s.formOpinion site answers).Writable site := by
    refine fits.set ⟨?_, NodeSet.writable_filterBelow few _⟩ _
    dsimp only
    split
    · exact (fits.own member).view
    · exact ofView
  have own := formed.own member
  refine formed.set ?_ _
  exact ⟨own.view, own.seconded⟩

theorem receive (fits : s.Writable site) (sender : NodeId) (written : o.Writable) :
    (s.receive site sender o).Writable site := by
  unfold Monitoring.receive
  split
  · exact fits.set written _
  · exact fits

end Writable

end Monitoring

/-! ### Suspicions -/

namespace Detection

variable {s : Detection} {view : View}

theorem nextBeat_le (beat : Nat) : nextBeat beat ≤ maxUnsigned :=
  Nat.min_le_right ..

namespace Writable

theorem new (site : Site) (few : site.cluster.size ≤ maxSigned + 1) :
    (Detection.new site).Writable site where
  length := List.length_replicate
  beats := fun _ member => List.eq_of_mem_replicate member ▸ Nat.zero_le _
  stalled := Nat.zero_le _
  suspicions := List.length_replicate
  tracked := List.length_replicate
  watched := fun _ member => absurd member List.not_mem_nil
  responsive := NodeSet.writable_filterBelow few _
  view := trivial

theorem ageBeats (fits : s.Writable site) (few : site.cluster.size ≤ maxSigned + 1)
    (sender : NodeId) : (s.ageBeats site sender).Writable site where
  length := List.length_mapIdx.trans fits.length
  beats := by
    intro beat member
    obtain ⟨k, inTable, rfl⟩ := List.mem_mapIdx.mp member
    dsimp only
    split
    · exact Nat.zero_le _
    · exact nextBeat_le _
  stalled := fits.stalled
  suspicions := fits.suspicions
  tracked := fits.tracked
  watched := fits.watched
  responsive := NodeSet.writable_filterBelow few _
  view := fits.view

theorem clear (fits : s.Writable site) : s.clear.Writable site :=
  { fits with
    stalled := Nat.zero_le _
    suspicions := length_suspicions_clear.trans fits.suspicions
    watched := fun _ member => absurd member List.not_mem_nil }

theorem trackView (fits : s.Writable site) (written : view.Writable) :
    (s.trackView view).Writable site := by
  unfold Detection.trackView
  split
  · exact fits
  · exact { fits.clear with view := written }

theorem checkProgress (fits : s.Writable site) {pending : List ClientRequest}
    (written : ∀ q ∈ pending, q.Writable) : (s.checkProgress pending).Writable site := by
  unfold Detection.checkProgress
  split
  · exact { fits with stalled := Nat.zero_le _, watched := written }
  · exact { fits with stalled := nextBeat_le _ }

theorem judge (fits : s.Writable site) (primary : NodeId) :
    (s.judge site primary).Writable site := by
  refine { fits with suspicions := ?_, tracked := List.length_set.trans fits.tracked }
  unfold Detection.judge
  dsimp only
  split
  · exact List.length_set.trans fits.suspicions
  · exact fits.suspicions

theorem followPrimary (fits : s.Writable site) (pending : ∀ q ∈ answers.pending, q.Writable)
    (sender primary : NodeId) : (s.followPrimary site answers sender primary).Writable site := by
  unfold Detection.followPrimary
  refine Writable.judge ?_ _
  split
  · exact { fits with stalled := Nat.zero_le _ }
  · split
    · exact fits.checkProgress pending
    · exact fits

theorem onToken (fits : s.Writable site) (few : site.cluster.size ≤ maxSigned + 1)
    (ofView : (answers.viewOf site.me).Writable) (pending : ∀ q ∈ answers.pending, q.Writable)
    (sender : NodeId) : (s.onToken site answers sender).Writable site := by
  have aged := fits.ageBeats few sender
  refine onToken_cases (P := (·.Writable site)) (fun _ => ?_) (fun _ => fits)
    (fun _ => (aged.trackView ofView).clear) (fun _ told => aged.trackView (told ▸ ofView))
    fun _ _ told _ => (aged.trackView (told ▸ ofView)).followPrimary pending ..
  refine { fits with length := List.length_set.trans fits.length, beats := fun beat member => ?_ }
  rcases List.mem_or_eq_of_mem_set member with old | rfl
  · exact fits.beats beat old
  · exact Nat.zero_le _

theorem receive (fits : s.Writable site) (sender : NodeId) (m : Suspicion) :
    (s.receive site sender m).Writable site := by
  unfold Detection.receive
  split
  · exact { fits with
      suspicions := List.length_set.trans fits.suspicions
      tracked := List.length_set.trans fits.tracked }
  · exact fits

theorem broadcast (fits : s.Writable site) {m : Suspicion}
    (sent : s.broadcast site answers = some m) : m.Writable := by
  unfold Detection.broadcast at sent
  split at sent
  · cases sent
    exact fits.view
  · contradiction

end Writable

end Detection

/-! ### Records -/

/-- The request can be written, and its client is known. -/
structure ClientRequest.Regular (c : Cluster) (q : ClientRequest) : Prop where
  writable : q.Writable
  client : q.client < c.clients

structure AssignedRequest.Regular (c : Cluster) (a : AssignedRequest) : Prop where
  request : a.request.Regular c
  view : a.view.Writable
  seq : a.seq ≤ maxUnsigned

theorem AssignedRequest.Regular.writable {c : Cluster} {a : AssignedRequest}
    (regular : a.Regular c) : a.Writable :=
  ⟨regular.request.writable, regular.view, regular.seq⟩

namespace Record

variable {c : Cluster} {r source : Record} {a : AssignedRequest}

/-- The record can be written, mentions known clients only, and but for its queue keeps within the
bounds of the cluster. -/
structure Regular (c : Cluster) (r : Record) : Prop where
  state : WritableState r.state
  log : ∀ e ∈ r.log, e.Writable
  pending : ∀ q ∈ r.pending, q.Regular c
  queued : ∀ a ∈ r.queued, a.Regular c
  replies : ∀ o ∈ r.replies, ∀ l ∈ o, l.Writable
  seq : r.seq ≤ maxUnsigned
  view : r.view.Writable
  clients : r.replies.length = c.clients
  fits : r.Fits c

namespace Regular

theorem writable (regular : r.Regular c) : r.Writable where
  state := regular.state
  log := regular.log
  pending := fun q member => (regular.pending q member).writable
  queue := fun _ member => (regular.queued _ (List.mem_map_of_mem member)).writable
  replies := regular.replies
  seq := regular.seq
  view := regular.view

theorem new (c : Cluster) : (Record.new c.clients).Regular c where
  state := fun _ member => absurd member List.not_mem_nil
  log := fun _ member => absurd member List.not_mem_nil
  pending := fun _ member => absurd member List.not_mem_nil
  queued := fun _ member => absurd member List.not_mem_nil
  replies := fun _ member => List.eq_of_mem_replicate member ▸ nofun
  seq := Nat.zero_le _
  view := trivial
  clients := List.length_replicate
  fits := ⟨Nat.zero_le _, Nat.zero_le _⟩

theorem lastExec_le (regular : r.Regular c) : r.lastExec ≤ maxUnsigned := by
  refine largestSeq_le fun a member => ?_
  obtain ⟨e, inLog, rfl⟩ := List.mem_map.mp member
  exact (regular.log e inLog).request.seq

/-- Requests may leave the pending requests and the queue. -/
theorem fewer (regular : r.Regular c) {pending : List ClientRequest} {queue : List QueueEntry}
    (ofPending : pending.Sublist r.pending) (ofQueue : queue.Sublist r.queue) :
    ({ r with pending := pending, queue := queue } : Record).Regular c :=
  { regular with
    pending := fun q member => regular.pending q (ofPending.subset member)
    queued := fun a member => regular.queued a (List.map_subset _ ofQueue.subset member)
    fits := ⟨regular.fits.log, Nat.le_trans ofPending.length_le regular.fits.pending⟩ }

theorem pruneExecuted (regular : r.Regular c) : r.pruneExecuted.Regular c :=
  regular.fewer List.filter_sublist List.filter_sublist

/-- More processes may be known to have executed the requests of the log. -/
theorem note (regular : r.Regular c) {executedBy : AssignedRequest → NodeSet}
    (fits : ∀ a, (executedBy a).Writable) :
    ({ r with log := r.log.map fun e =>
        { e with executedBy := e.executedBy.union (executedBy e.request) } } : Record).Regular c :=
  { regular with
    log := by
      intro e member
      obtain ⟨before, inLog, rfl⟩ := List.mem_map.mp member
      have old := regular.log before inLog
      exact ⟨old.request, fun k inUnion =>
        (NodeSet.mem_union.mp inUnion).elim (old.executedBy k) (fits _ k)⟩
    fits := ⟨(List.length_map _).trans_le regular.fits.log, regular.fits.pending⟩ }

/-- The queue may be extended by regular requests. -/
theorem enqueue (regular : r.Regular c) {added : List QueueEntry} {seq : Nat}
    (fine : ∀ e ∈ added, e.request.Regular c) (bounded : seq ≤ maxUnsigned) :
    ({ r with queue := r.queue ++ added, seq := seq } : Record).Regular c :=
  { regular with
    seq := bounded
    queued := by
      intro a member
      rw [Record.queued, List.map_append, List.mem_append] at member
      rcases member with old | new
      · exact regular.queued a old
      · obtain ⟨e, isNew, rfl⟩ := List.mem_map.mp new
        exact fine e isNew
    fits := ⟨regular.fits.log, regular.fits.pending⟩ }

theorem sanitize (written : r.Writable) (pending : ∀ q ∈ r.pending, q.Regular c)
    (queued : ∀ a ∈ r.queued, a.Regular c) :
    (r.sanitize c.clients c.pendingCapacity c.logCapacity).Regular c where
  state := written.state
  log := fun e member => written.log e (List.mem_of_mem_drop member)
  pending := fun q member => pending q (List.mem_of_mem_take member)
  queued := fun a member => queued a (List.map_subset _ (List.take_subset _ _) member)
  replies := by
    intro o member
    rcases List.mem_append.mp member with old | none
    · exact written.replies o (List.mem_of_mem_take old)
    · exact List.eq_of_mem_replicate none ▸ nofun
  seq := written.seq
  view := written.view
  clients := length_resize ..
  fits := fits_sanitize ..

/-- Of a regular record only the queue can be cut. -/
theorem sanitize_eq (regular : r.Regular c) :
    r.sanitize c.clients c.pendingCapacity c.logCapacity =
      { r with queue := r.queue.take c.logCapacity } := by
  have replies : resize c.clients r.replies = r.replies := by
    simp [resize, ← regular.clients]
  have pending : r.pending.take c.pendingCapacity = r.pending :=
    List.take_of_length_le regular.fits.pending
  have log : lastEntries c.logCapacity r.log = r.log := by
    rw [lastEntries, Nat.sub_eq_zero_of_le regular.fits.log, List.drop_zero]
  rw [Record.sanitize, replies, pending, log]

theorem operation {q : ClientRequest} (written : q.Writable) {state : List Int}
    (fits : WritableState state) : WritableState (q.operation.apply state) := by
  have argument := written.operation
  cases of : q.operation with
  | append x =>
      rw [of] at argument
      intro y member
      rcases List.mem_append.mp member with old | new
      · exact fits y old
      · exact List.mem_singleton.mp new ▸ argument
  | prepend x =>
      rw [of] at argument
      exact List.forall_mem_cons.mpr ⟨argument, fits⟩
  | pop i => exact fun y member => fits y (List.mem_of_mem_eraseIdx member)

theorem apply (regular : r.Regular c) (ofA : a.Regular c) {executedBy : NodeSet}
    (fits : executedBy.Writable) : (r.apply a executedBy c.logCapacity).Regular c := by
  have state := operation ofA.request.writable regular.state
  have known : a.request.client < r.replies.length := regular.clients ▸ ofA.request.client
  have pruned : ({ r with
      pending := r.pending.filter fun p => !p.sameOrigin a.request
      queue := r.queue.filter fun e => !e.request.request.sameOrigin a.request } :
      Record).Regular c := regular.fewer List.filter_sublist List.filter_sublist
  refine
    { pruned with
      state := state
      log := fun e member => ?_
      replies := fun o member => ?_
      clients := ?_
      fits := ⟨length_lastEntries_le .., pruned.fits.pending⟩ }
  · rcases List.mem_append.mp (List.mem_of_mem_drop member) with old | new
    · exact regular.log e old
    · rw [List.mem_singleton.mp new]
      exact ⟨ofA.writable, fits⟩
  · simp only [Record.apply, setReply, if_pos known] at member
    rcases List.mem_or_eq_of_mem_set member with old | rfl
    · exact regular.replies o old
    · rintro _ ⟨⟩
      exact ⟨ofA.request.writable, state⟩
  · simp only [Record.apply, setReply, if_pos known, List.length_set]
    exact regular.clients

/-- All requests that a regular record mentions are regular. -/
theorem mentioned (regular : r.Regular c) {q : ClientRequest}
    (listed : q ∈ r.pending ++ Agreement.queuedRequests r) : q.Regular c := by
  rcases List.mem_append.mp listed with pending | queued
  · exact regular.pending q pending
  · obtain ⟨a, inQueue, rfl⟩ := List.mem_map.mp queued
    exact (regular.queued a inQueue).request

/-- The history of another record is adopted. -/
theorem adoptFrom (regular : r.Regular c) (ofSource : source.Regular c) :
    (Agreement.adoptFrom source r).Regular c :=
  pruneExecuted
    { regular with
      state := ofSource.state
      log := ofSource.log
      replies := ofSource.replies
      clients := ofSource.clients
      fits := ⟨ofSource.fits.log, regular.fits.pending⟩ }

/-- Another record is copied, but for the view. -/
theorem copyFrom (regular : r.Regular c) (ofSource : source.Regular c) :
    (Agreement.copyFrom source r).Regular c :=
  { ofSource with
    view := regular.view
    fits := ⟨ofSource.fits.log, ofSource.fits.pending⟩ }

end Regular

end Record

/-! ### Tables of records -/

namespace Agreement

variable {s t : Agreement} {primary : NodeId} {copying : Bool}

/-- All records of the table are regular, and the queues of others are within their bound. -/
structure Regular (site : Site) (s : Agreement) : Prop where
  length : s.records.length = site.cluster.size
  records : ∀ j, j < site.cluster.size → (s.recordOf j).Regular site.cluster
  queues : ∀ j, j ≠ site.me → (s.recordOf j).queue.length ≤ site.cluster.logCapacity

namespace Regular

theorem new (site : Site) : (Agreement.new site).Regular site := by
  have recorded : ∀ j, j < site.cluster.size →
      (Agreement.new site).recordOf j = .new site.cluster.clients := by
    intro j inRange
    simp [Agreement.new, recordOf, inRange]
  refine ⟨List.length_replicate, fun j inRange => recorded j inRange ▸ .new _, fun j _ => ?_⟩
  by_cases inRange : j < site.cluster.size
  · exact recorded j inRange ▸ Nat.zero_le _
  · rw [recordOf_eq_blank]
    · exact Nat.zero_le _
    · simpa [Agreement.new] using inRange

theorem of_mem (regular : s.Regular site) {r : Record} (member : r ∈ s.records) :
    r.Regular site.cluster := by
  obtain ⟨j, inTable, rfl⟩ := List.mem_iff_getElem.mp member
  have isRecord : s.recordOf j = s.records[j] := by simp [recordOf, inTable]
  exact isRecord ▸ regular.records j (regular.length ▸ inTable)

theorem writable (regular : s.Regular site) : s.Writable site :=
  ⟨regular.length, fun _ member => (regular.of_mem member).writable⟩

/-- A table stays regular when the new own record is. -/
theorem of_own (regular : s.Regular site) (length : t.records.length = s.records.length)
    (others : ∀ j, j ≠ site.me → t.recordOf j = s.recordOf j)
    (own : (t.own site).Regular site.cluster) : t.Regular site := by
  refine ⟨length.trans regular.length, fun j inRange => ?_, fun j other => ?_⟩
  · by_cases isMe : j = site.me
    · exact isMe ▸ own
    · exact others j isMe ▸ regular.records j inRange
  · exact others j other ▸ regular.queues j other

section Own

variable (regular : s.Regular site) (member : site.me < site.cluster.size)
include regular member

theorem ownRecord : (s.own site).Regular site.cluster :=
  regular.records _ member

theorem inTable : site.me < s.records.length :=
  regular.length ▸ member

theorem renewed {q : ClientRequest} (renewed : q ∈ s.renewedRequests site) :
    q.Regular site.cluster := by
  rcases List.mem_append.mp (mem_renewedRequests renewed) with ofOwn | widely
  · exact (regular.ownRecord member).mentioned ofOwn
  · simp only [knownPending, List.mem_mergeSort, List.mem_eraseDups, List.mem_filter,
      List.mem_flatMap] at widely
    obtain ⟨⟨r, inRecords, listed⟩, -⟩ := widely
    exact (regular.of_mem inRecords).mentioned listed

/-- Sequence numbers that are assigned stay within the window. -/
theorem assignments (view : View) :
    max (s.own site).seq (s.own site).lastExec + (s.assignments site view).length ≤
      maxUnsigned := by
  have own := regular.ownRecord member
  have seq : (s.own site).seq ≤ maxUnsigned := own.seq
  have lastExec : (s.own site).lastExec ≤ maxUnsigned := own.lastExec_le
  have window : windowEnd site (s.own site).lastExec ≤ maxUnsigned := Nat.min_le_right ..
  have few := length_assignments_le site view s
  omega

theorem own_renewRequests : ((s.renewRequests site).own site).Regular site.cluster := by
  have own := regular.ownRecord member
  rw [renewRequests, own_updateOwn (regular.inTable member)]
  exact
    { own with
      pending := fun q => regular.renewed member
      queued := fun _ inQueue => absurd inQueue List.not_mem_nil
      seq := own.lastExec_le
      fits := ⟨own.fits.log, List.length_take_le ..⟩ }

theorem own_assign {view : View} (written : view.Writable) :
    ((s.assign site view).own site).Regular site.cluster := by
  have own := regular.ownRecord member
  have bound := regular.assignments member view
  rw [assign_eq (regular.inTable member), own_updateOwn (regular.inTable member)]
  refine own.enqueue (fun e inQueue => ?_) bound
  obtain ⟨a, given, rfl⟩ := List.mem_map.mp inQueue
  have listed := (map_request_assignments site view s).subset (List.mem_map_of_mem given)
  have inView : a.view = view := view_of_mem_numberBehind given
  exact ⟨own.pending _ (List.mem_filter.mp listed).1, inView ▸ written,
    Nat.le_trans (mem_assignments given).2 bound⟩

theorem own_prepareToCommit : ((s.prepareToCommit site).own site).Regular site.cluster := by
  have own := regular.ownRecord member
  rw [prepareToCommit, own_updateOwn (regular.inTable member)]
  refine { own with queued := ?_, fits := ⟨own.fits.log, own.fits.pending⟩ }
  rw [Record.queued, map_request_status]
  exact own.queued

theorem own_tidy (few : site.cluster.size ≤ maxSigned + 1) (view : View) :
    ((s.tidy site view).own site).Regular site.cluster := by
  have inTable := regular.inTable member
  have supporters : ∀ a, (s.committedBy site a).Writable := fun _ =>
    NodeSet.writable_filterBelow few _
  have noted := (regular.ownRecord member).note supporters
  unfold Agreement.tidy
  dsimp only
  rw [own_updateOwn (by rwa [length_records_updateOwn]), own_updateOwn inTable]
  apply Record.Regular.pruneExecuted
  split
  · exact noted
  · exact noted.fewer (.refl _) List.filter_sublist

end Own

/-- Every stage keeps a table regular. -/
theorem stage (regular : s.Regular site) (stage : Stage site primary copying s t)
    (member : site.me < site.cluster.size) (few : site.cluster.size ≤ maxSigned + 1)
    (written : (View.id primary).Writable) : t.Regular site := by
  have inTable := regular.inTable member
  have own := regular.ownRecord member
  suffices changed : (t.own site).Regular site.cluster from
    regular.of_own stage.length (fun j other => stage.others other) changed
  -- A record that says anything is that of a process of the cluster.
  have inCluster : ∀ {j}, s.recordOf j ≠ .blank → j < site.cluster.size := by
    intro j defined
    by_contra outside
    exact defined (recordOf_eq_blank (regular.length ▸ Nat.le_of_not_lt outside))
  cases stage with
  | notice =>
      rw [own_updateOwn inTable]
      exact { own with view := written, fits := ⟨own.fits.log, own.fits.pending⟩ }
  | lead | flag =>
      rw [own_updateOwn inTable]
      exact { own with fits := ⟨own.fits.log, own.fits.pending⟩ }
  | renew => exact regular.own_renewRequests member
  | adopt inRange another =>
      rw [own_updateOwn inTable]
      exact own.adoptFrom (regular.records _ inRange)
  | copy copies another inView =>
      rw [own_updateOwn inTable]
      refine own.copyFrom (regular.records primary (inCluster fun blank => ?_))
      rw [blank] at inView
      contradiction
  | assign => exact regular.own_assign member written
  | accept another proposed =>
      rw [own_updateOwn inTable]
      have source := regular.records primary (inCluster fun blank => by
        rw [blank] at proposed
        contradiction)
      refine own.enqueue (fun e inQueue => ?_) own.seq
      obtain rfl := List.mem_singleton.mp inQueue
      exact source.queued _ proposed
  | prepare => exact regular.own_prepareToCommit member
  | execute next quorum =>
      rw [own_updateOwn inTable]
      exact own.apply (own.queued _ (of_nextCommitted next).1)
        (NodeSet.writable_filterBelow few _)
  | tidy => exact regular.own_tidy member few _

theorem honourFlush (regular : s.Regular site) (member : site.me < site.cluster.size) :
    (s.honourFlush site).Regular site := by
  have inTable := regular.inTable member
  refine regular.of_own length_records_honourFlush (fun j other => ?_) ?_
  · exact (recordOf_honourFlush inTable j).elim id fun fresh => absurd fresh.1 other
  · rcases recordOf_honourFlush inTable site.me with same | ⟨-, fresh⟩
    · rw [own, same]
      exact regular.ownRecord member
    · rw [own, fresh]
      exact .new _

theorem round (regular : s.Regular site) (member : site.me < site.cluster.size)
    (few : site.cluster.size ≤ maxSigned + 1) (ofView : (answers.viewOf site.me).Writable) :
    (s.round site answers).state.Regular site := by
  have inTable := regular.inTable member
  have honoured := regular.honourFlush member
  rcases round_stages inTable answers with ⟨-, fresh⟩ | ⟨-, ⟨-, same⟩ | ⟨primary, is, staged⟩⟩
  · refine regular.of_own (length_records_round answers)
      (fun j other => recordOf_round_of_ne other answers) ?_
    rw [fresh]
    exact .new _
  · rw [same]
    exact honoured
  · exact staged.keeps honoured fun _ _ _ stage before =>
      before.stage stage member few (is ▸ ofView)

theorem submit (regular : s.Regular site) (member : site.me < site.cluster.size)
    {q : ClientRequest} (written : q.Writable) :
    ((s.submit site q).toOption.getD s).Regular site := by
  by_cases stranger : site.cluster.clients ≤ q.client
  · rw [Agreement.submit, if_pos stranger]
    exact regular
  · rcases submit_eq_or site s q with same | ⟨bufferable, buffered⟩
    · rw [same]
      exact regular
    · have own := regular.ownRecord member
      have room : ((s.own site).pending ++ [q]).length ≤ site.cluster.pendingCapacity := by
        rw [List.length_append]
        exact bufferable.room
      rw [buffered]
      refine regular.of_own (length_records_updateOwn ..)
        (fun j other => recordOf_updateOwn_of_ne other ..) ?_
      rw [own_updateOwn (regular.inTable member)]
      refine { own with pending := fun p listed => ?_, fits := ⟨own.fits.log, room⟩ }
      rcases List.mem_append.mp listed with old | new
      · exact own.pending p old
      · exact List.mem_singleton.mp new ▸ ⟨written, Nat.lt_of_not_le stranger⟩

theorem receive (regular : s.Regular site) (sender : NodeId) {r : Record}
    (ofRecord : r.Regular site.cluster) : (s.receive site sender r).Regular site := by
  by_cases peer : site.isPeer sender = true
  · obtain ⟨another, inCluster⟩ := Site.isPeer_iff.mp peer
    have shown := recordOf_receive peer (regular.length ▸ inCluster) r
    refine ⟨(length_records_receive ..).trans regular.length, fun j inRange => ?_,
      fun j other => ?_⟩
    · rw [shown]
      split
      · exact .sanitize ofRecord.writable ofRecord.pending ofRecord.queued
      · exact regular.records j inRange
    · rw [shown]
      split
      · exact List.length_take_le ..
      · exact regular.queues j other
  · rw [Agreement.receive, if_neg peer]
    exact regular

end Regular

end Agreement

end QuorumList
