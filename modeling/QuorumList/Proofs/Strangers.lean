import QuorumList.Proofs.CommonHistory
import QuorumList.Proofs.Lawful
import QuorumList.Proofs.Stages

/-!
Strangers.

A replica refuses requests of clients that it does not know, and keeps one reply for each client
that it does.  But requests also come to it in the records of others, and there nobody looks at the
client.  A correct replica never brings in the request of a stranger.  A faulty one may: its log is
taken over with a common history, and as the primary of a view it is followed in what it has queued
and pending.  What is brought in is executed like any other request, and the replies make room for
the stranger.
-/
namespace QuorumList

/-! ### Records -/

namespace Record

variable {r other source : Record} {clients : Nat} {known : ClientRequest → Prop}

/-- What the record has executed is known; and it keeps one reply for each client, unless a stranger
is known. -/
structure PastKnown (clients : Nat) (known : ClientRequest → Prop) (r : Record) : Prop where
  logged : ∀ a ∈ r.logged, known a.request
  replies : r.replies.length = clients ∨ ∃ q, clients ≤ q.client ∧ known q

/-- What the record is still to execute is known. -/
structure FutureKnown (known : ClientRequest → Prop) (r : Record) : Prop where
  pending : ∀ q ∈ r.pending, known q
  queued : ∀ a ∈ r.queued, known a.request

namespace PastKnown

theorem new (clients : Nat) : (Record.new clients).PastKnown clients known :=
  ⟨fun _ logged => absurd logged List.not_mem_nil, .inl List.length_replicate⟩

theorem of_eq (past : r.PastKnown clients known) (logged : other.logged = r.logged)
    (replies : other.replies = r.replies) : other.PastKnown clients known :=
  ⟨logged ▸ past.logged, replies ▸ past.replies⟩

/-- Execution makes room for a client only if it is a stranger. -/
theorem apply (past : r.PastKnown clients known) {a : AssignedRequest} (ofA : known a.request)
    (executedBy : NodeSet) (capacity : Nat) :
    (r.apply a executedBy capacity).PastKnown clients known := by
  constructor
  · intro b shown
    have listed := List.map_subset _ (List.drop_subset _ _) shown
    rw [List.map_append, List.mem_append] at listed
    rcases listed with old | isA
    · exact past.logged b old
    · obtain rfl : b = a := by simpa using isA
      exact ofA
  · rcases past.replies with length | stranger
    · by_cases inRange : a.request.client < clients
      · left
        rw [Record.apply, setReply]
        dsimp only
        rw [if_pos (length ▸ inRange), List.length_set, length]
      · exact .inr ⟨a.request, Nat.le_of_not_lt inRange, ofA⟩
    · exact .inr stranger

theorem sanitize (logged : ∀ a ∈ r.logged, known a.request) (pendingCapacity logCapacity : Nat) :
    (r.sanitize clients pendingCapacity logCapacity).PastKnown clients known :=
  ⟨fun a shown => logged a (List.map_subset _ (List.drop_subset _ _) shown),
    .inl (length_resize ..)⟩

end PastKnown

namespace FutureKnown

theorem new (clients : Nat) : (Record.new clients).FutureKnown known :=
  ⟨fun _ pending => absurd pending List.not_mem_nil,
    fun _ queued => absurd queued List.not_mem_nil⟩

theorem of_subset (future : r.FutureKnown known) (pending : other.pending ⊆ r.pending)
    (queued : other.queued ⊆ r.queued) : other.FutureKnown known :=
  ⟨fun q member => future.pending q (pending member),
    fun a member => future.queued a (queued member)⟩

theorem of_filter (future : r.FutureKnown known) {p : ClientRequest → Bool}
    {keep : QueueEntry → Bool} (pending : other.pending = r.pending.filter p)
    (queue : other.queue = r.queue.filter keep) : other.FutureKnown known := by
  refine future.of_subset ?_ ?_
  · rw [pending]
    exact List.filter_sublist.subset
  · unfold Record.queued
    rw [queue]
    exact List.map_subset _ List.filter_sublist.subset

theorem sanitize (future : r.FutureKnown known) (clients pendingCapacity logCapacity : Nat) :
    (r.sanitize clients pendingCapacity logCapacity).FutureKnown known :=
  future.of_subset (List.take_subset _ _) (List.map_subset _ (List.take_subset _ _))

end FutureKnown

end Record

/-! ### Tables -/

namespace Agreement

variable {site : Site} {s t : Agreement} {primary : NodeId} {copying : Bool} {answers : Answers}
  {known : ClientRequest → Prop} {trusted : NodeId → Prop} {faulty : NodeId → Bool}

/-- All records of the table have a known past, and those of trusted processes a known future. -/
structure Screened (known : ClientRequest → Prop) (trusted : NodeId → Prop) (site : Site)
    (s : Agreement) : Prop where
  length : s.records.length = site.cluster.size
  past : ∀ j, j < site.cluster.size → (s.recordOf j).PastKnown site.cluster.clients known
  future : ∀ j, trusted j → (s.recordOf j).FutureKnown known

/-- What enough records show is known: one of them is from a correct process. -/
theorem Screened.of_widelyKnown (screened : s.Screened known trusted site)
    (few : site.cluster.nodes.countP faulty ≤ site.cluster.faults)
    (correct : ∀ j, faulty j = false → trusted j) {q : ClientRequest}
    (widely : s.widelyKnown site q = true) : known q := by
  have shown : ∀ p : Record → Bool, site.cluster.adoptQuorum ≤ s.records.countP p →
      ∃ j, trusted j ∧ p (s.recordOf j) = true := by
    intro p quorum
    rw [countP_records screened.length, Cluster.adoptQuorum] at quorum
    have some := countP_le_countP_not_add (fun j => p (s.recordOf j)) faulty site.cluster.nodes
    obtain ⟨j, -, holds⟩ : ∃ j ∈ site.cluster.nodes,
        (p (s.recordOf j) && !faulty j) = true := List.countP_pos_iff.mp (by omega)
    simp only [Bool.and_eq_true, Bool.not_eq_true'] at holds
    exact ⟨j, correct j holds.2, holds.1⟩
  simp only [widelyKnown, Bool.or_eq_true, decide_eq_true_eq] at widely
  rcases widely with pending | queued
  · obtain ⟨j, trust, holds⟩ := shown _ pending
    exact (screened.future j trust).pending q (List.contains_iff_mem.mp holds)
  · obtain ⟨j, trust, holds⟩ := shown _ queued
    obtain ⟨a, member, rfl⟩ := List.mem_map.mp (List.contains_iff_mem.mp holds)
    exact (screened.future j trust).queued a member

/-- A new primary starts only from requests that are known. -/
theorem Screened.of_renewed (screened : s.Screened known trusted site)
    (few : site.cluster.nodes.countP faulty ≤ site.cluster.faults)
    (correct : ∀ j, faulty j = false → trusted j) (me : trusted site.me) {q : ClientRequest}
    (renewed : q ∈ s.renewedRequests site) : known q := by
  have own := screened.future site.me me
  rcases List.mem_append.mp (mem_renewedRequests renewed) with ofOwn | widely
  · rcases List.mem_append.mp ofOwn with pending | queued
    · exact own.pending q pending
    · obtain ⟨a, member, rfl⟩ := List.mem_map.mp queued
      exact own.queued a member
  · simp only [knownPending, List.mem_mergeSort, List.mem_eraseDups, List.mem_filter] at widely
    exact screened.of_widelyKnown few correct widely.2

/-- A table stays screened when the new own record is known. -/
theorem Screened.of_own (screened : s.Screened known trusted site)
    (length : t.records.length = s.records.length)
    (others : ∀ j, j ≠ site.me → t.recordOf j = s.recordOf j)
    (past : (t.own site).PastKnown site.cluster.clients known)
    (future : (t.own site).FutureKnown known) : t.Screened known trusted site := by
  refine ⟨length.trans screened.length, fun j inRange => ?_, fun j trust => ?_⟩
  · by_cases isMe : j = site.me
    · subst isMe
      exact past
    · rw [others j isMe]
      exact screened.past j inRange
  · by_cases isMe : j = site.me
    · subst isMe
      exact future
    · rw [others j isMe]
      exact screened.future j trust

/-- Every stage keeps a table screened, if the own record and that of the primary are trusted. -/
theorem Screened.stage (screened : s.Screened known trusted site)
    (stage : Stage site primary copying s t)
    (few : site.cluster.nodes.countP faulty ≤ site.cluster.faults)
    (correct : ∀ j, faulty j = false → trusted j) (inRange : site.me < site.cluster.size)
    (me : trusted site.me) (ofPrimary : trusted primary) : t.Screened known trusted site := by
  have inTable : site.me < s.records.length := screened.length ▸ inRange
  have ownPast : (s.own site).PastKnown site.cluster.clients known := screened.past _ inRange
  have ownFuture : (s.own site).FutureKnown known := screened.future _ me
  suffices own : (t.own site).PastKnown site.cluster.clients known ∧
      (t.own site).FutureKnown known from
    screened.of_own stage.length (fun j other => stage.others other) own.1 own.2
  cases stage with
  | notice | lead | flag =>
      rw [own_updateOwn inTable]
      exact ⟨ownPast.of_eq rfl rfl, ownFuture.of_subset (fun _ => id) fun _ => id⟩
  | renew =>
      rw [renewRequests, own_updateOwn inTable]
      exact ⟨ownPast.of_eq rfl rfl, fun q => screened.of_renewed few correct me,
        fun _ queued => absurd queued List.not_mem_nil⟩
  | adopt holderInRange another =>
      rw [own_updateOwn inTable]
      exact ⟨(screened.past _ holderInRange).of_eq rfl rfl, ownFuture.of_filter rfl rfl⟩
  | copy copies another inView =>
      rw [own_updateOwn inTable]
      have primaryInRange : primary < site.cluster.size := by
        refine Nat.lt_of_not_le fun outside => ?_
        rw [recordOf_eq_blank (screened.length ▸ outside)] at inView
        contradiction
      exact ⟨(screened.past _ primaryInRange).of_eq rfl rfl,
        (screened.future _ ofPrimary).of_subset (fun _ => id) fun _ => id⟩
  | assign =>
      rw [assign_eq inTable, own_updateOwn inTable]
      refine ⟨ownPast.of_eq rfl rfl, ownFuture.pending, fun a member => ?_⟩
      rw [Record.queued, List.map_append, List.mem_append] at member
      rcases member with old | new
      · exact ownFuture.queued a old
      · have given : a ∈ s.assignments site (.id primary) := by
          simpa [preparedEntry, Function.comp_def] using new
        have listed := (map_request_assignments site (.id primary) s).subset
          (List.mem_map_of_mem given)
        exact ownFuture.pending _ (List.mem_filter.mp listed).1
  | accept another proposed =>
      rw [own_updateOwn inTable]
      refine ⟨ownPast.of_eq rfl rfl, ownFuture.pending, fun a member => ?_⟩
      rw [Record.queued, List.map_append, List.mem_append] at member
      rcases member with old | new
      · exact ownFuture.queued a old
      · obtain rfl := List.mem_singleton.mp new
        exact (screened.future _ ofPrimary).queued _ proposed
  | prepare =>
      rw [prepareToCommit, own_updateOwn inTable]
      refine ⟨ownPast.of_eq rfl rfl, ownFuture.of_subset (fun _ => id) ?_⟩
      rw [Record.queued, map_request_status]
      exact fun _ => id
  | execute next quorum =>
      rw [own_updateOwn inTable]
      exact ⟨ownPast.apply (ownFuture.queued _ (of_nextCommitted next).1) _ _,
        ownFuture.of_filter rfl rfl⟩
  | tidy =>
      unfold Agreement.tidy
      dsimp only
      rw [own_updateOwn (by rwa [length_records_updateOwn]), own_updateOwn inTable]
      split
      · exact ⟨ownPast.of_eq (map_request_executedBy ..) rfl, ownFuture.of_filter rfl rfl⟩
      · refine ⟨ownPast.of_eq (map_request_executedBy ..) rfl, ?_⟩
        have dropped : ∀ keep : QueueEntry → Bool,
            { s.own site with queue := (s.own site).queue.filter keep }.FutureKnown known :=
          fun keep => ownFuture.of_subset (fun _ => id)
            (List.map_subset _ List.filter_sublist.subset)
        exact (dropped _).of_filter rfl rfl

theorem Screened.honourFlush (screened : s.Screened known trusted site)
    (inRange : site.me < site.cluster.size) : (s.honourFlush site).Screened known trusted site := by
  have inTable : site.me < s.records.length := screened.length ▸ inRange
  refine ⟨length_records_honourFlush.trans screened.length, fun j inCluster => ?_,
    fun j trust => ?_⟩
  · rcases recordOf_honourFlush inTable j with same | ⟨-, fresh⟩
    · rw [same]
      exact screened.past j inCluster
    · rw [fresh]
      exact .new _
  · rcases recordOf_honourFlush inTable j with same | ⟨-, fresh⟩
    · rw [same]
      exact screened.future j trust
    · rw [fresh]
      exact .new _

section Rounds

variable (screened : s.Screened known trusted site)
  (few : site.cluster.nodes.countP faulty ≤ site.cluster.faults)
  (correct : ∀ j, faulty j = false → trusted j) (inRange : site.me < site.cluster.size)
  (me : trusted site.me)
include screened few correct inRange me

theorem Screened.staged (staged : Staged site primary copying s t) (ofPrimary : trusted primary) :
    t.Screened known trusted site :=
  staged.keeps screened fun _ _ _ stage before =>
    before.stage stage few correct inRange me ofPrimary

variable (told : ∀ primary, answers.viewOf site.me = .id primary → trusted primary)
include told

theorem Screened.round : (s.round site answers).state.Screened known trusted site := by
  have inTable : site.me < s.records.length := screened.length ▸ inRange
  have honoured := screened.honourFlush inRange
  rcases round_stages inTable answers with ⟨-, fresh⟩ | ⟨-, ⟨-, same⟩ | ⟨primary, is, staged⟩⟩
  · refine screened.of_own (length_records_round answers)
      (fun j other => recordOf_round_of_ne other answers) ?_ ?_
    · rw [fresh]
      exact .new _
    · rw [fresh]
      exact .new _
  · rw [same]
    exact honoured
  · exact honoured.staged few correct inRange me staged (told primary is)

theorem Screened.of_mem_roundExecutes {a : AssignedRequest}
    (executed : a ∈ s.roundExecutes site answers) : known a.request := by
  have inTable : site.me < s.records.length := screened.length ▸ inRange
  have honoured := screened.honourFlush inRange
  unfold roundExecutes at executed
  split at executed
  · contradiction
  · next primary is =>
      dsimp only at executed
      split at executed
      · contradiction
      · have trust := told primary is
        have entered := honoured.staged few correct inRange me (staged_enterView_round inTable is)
          trust
        have prepared := entered.staged few correct inRange me
          (staged_prepared _ answers primary : Staged site primary false _ _) trust
        obtain ⟨t, (execution : Staged site primary false _ t), next⟩ :=
          exists_of_mem_executes _ executed
        exact ((prepared.staged few correct inRange me execution trust).future _ me).queued a
          (of_nextCommitted next).1

end Rounds

/-! ### Between rounds -/

/-- Only requests of known clients are buffered. -/
theorem Screened.submit (screened : s.Screened known trusted site)
    (inRange : site.me < site.cluster.size) {q : ClientRequest}
    (ofQ : q.client < site.cluster.clients → known q) :
    ((s.submit site q).toOption.getD s).Screened known trusted site := by
  have inTable : site.me < s.records.length := screened.length ▸ inRange
  by_cases stranger : site.cluster.clients ≤ q.client
  · rw [Agreement.submit, if_pos stranger]
    exact screened
  · rcases submit_eq_or site s q with same | ⟨-, buffered⟩
    · rw [same]
      exact screened
    · rw [buffered]
      refine ⟨(length_records_updateOwn ..).trans screened.length, fun j inCluster => ?_,
        fun j trust => ?_⟩
      · by_cases isMe : j = site.me
        · subst isMe
          rw [← own, own_updateOwn inTable]
          exact (screened.past _ inRange).of_eq rfl rfl
        · rw [recordOf_updateOwn_of_ne isMe]
          exact screened.past j inCluster
      · by_cases isMe : j = site.me
        · subst isMe
          rw [← own, own_updateOwn inTable]
          have future := screened.future _ trust
          refine ⟨fun p member => ?_, future.queued⟩
          rcases List.mem_append.mp member with old | new
          · exact future.pending p old
          · obtain rfl := List.mem_singleton.mp new
            exact ofQ (Nat.lt_of_not_le stranger)
        · rw [recordOf_updateOwn_of_ne isMe]
          exact screened.future j trust

theorem Screened.receive (screened : s.Screened known trusted site) {sender : NodeId} {r : Record}
    (logged : ∀ a ∈ r.logged, known a.request)
    (future : sender ≠ site.me → trusted sender → r.FutureKnown known) :
    (s.receive site sender r).Screened known trusted site := by
  by_cases peer : site.isPeer sender = true
  · obtain ⟨another, inCluster⟩ := Site.isPeer_iff.mp peer
    have shown := recordOf_receive peer (screened.length ▸ inCluster) r
    refine ⟨(length_records_receive ..).trans screened.length, fun j inCluster => ?_,
      fun j trust => ?_⟩
    · rw [shown]
      split
      · exact .sanitize logged _ _
      · exact screened.past j inCluster
    · rw [shown]
      split
      · next same => exact (future another (same ▸ trust)).sanitize _ _ _
      · exact screened.future j trust
  · rw [Agreement.receive, if_neg peer]
    exact screened

end Agreement

namespace Ensemble

variable {c : Cluster} {e : Ensemble} {k j : NodeId} {s t : Agreement} {faulty : NodeId → Bool}

/-! ### Faulty processes -/

/-- Something that happens where some processes are faulty. -/
inductive Deed where
  | act (action : Action)
  /-- A record arrives that nobody need have sent. -/
  | forge (receiver sender : NodeId) (r : Record)

/-- Only faulty processes show what they like. -/
def Deed.Admits (faulty : NodeId → Bool) : Deed → Prop
  | .act _ => True
  | .forge _ sender _ => faulty sender = true

instance (faulty : NodeId → Bool) : DecidablePred (Deed.Admits faulty)
  | .act _ => .isTrue trivial
  | .forge _ sender _ => inferInstanceAs (Decidable (faulty sender = true))

/-- What a deed makes of an ensemble. -/
def suffer (c : Cluster) (e : Ensemble) : Deed → Ensemble
  | .act action => e.act c action
  | .forge receiver sender r =>
      match e.replicas[receiver]? with
      | none => e
      | some s => e.put receiver (s.receive (c.siteOf receiver) sender r)

/-- What a sequence of deeds makes of a fresh ensemble. -/
def runDeeds (c : Cluster) (deeds : List Deed) : Ensemble :=
  deeds.foldl (suffer c) (start c)

/-- At some time the replica is told that this process is its primary. -/
def Told (deeds : List Deed) (k primary : NodeId) : Prop :=
  ∃ answers, .act (.round k answers) ∈ deeds ∧ answers.viewOf k = .id primary

/-- A request is brought in by a record that nobody need have sent: the record shows it in its log,
or it shows it as pending or queued, and is followed as that of the primary. -/
def BroughtIn (deeds : List Deed) (q : ClientRequest) : Prop :=
  ∃ receiver sender r, .forge receiver sender r ∈ deeds ∧
    (q ∈ r.logged.map AssignedRequest.request ∨
      Told deeds receiver sender ∧
        (q ∈ r.pending ∨ q ∈ r.queued.map AssignedRequest.request))

/-- The client of the request is known, or the request was brought in. -/
def Vetted (c : Cluster) (deeds : List Deed) (q : ClientRequest) : Prop :=
  q.client < c.clients ∨ BroughtIn deeds q

/-- Whom a replica trusts in what is still to be executed: those that are not faulty, itself, and
those that it is ever told to follow. -/
def Trusts (faulty : NodeId → Bool) (deeds : List Deed) (k j : NodeId) : Prop :=
  faulty j = false ∨ j = k ∨ Told deeds k j

/-- Every replica has a screened table, and all that was ever broadcast is vetted. -/
structure Guarded (c : Cluster) (faulty : NodeId → Bool) (deeds : List Deed) (e : Ensemble) :
    Prop where
  tables : ∀ k (s : Agreement), e.replicas[k]? = some s →
    k < c.size ∧ s.Screened (Vetted c deeds) (Trusts faulty deeds k) (c.siteOf k)
  sent : ∀ m ∈ e.sent, (∀ a ∈ m.2.logged, Vetted c deeds a.request) ∧
    m.2.FutureKnown (Vetted c deeds)

variable {deeds : List Deed}

theorem guarded_start (c : Cluster) (faulty : NodeId → Bool) (deeds : List Deed) :
    Guarded c faulty deeds (start c) := by
  refine ⟨fun k s found => ?_, fun m sent => absurd sent List.not_mem_nil⟩
  obtain ⟨inRange, length⟩ := sized_start c k s found
  obtain rfl := replicas_start found
  have fresh : ∀ j, j < c.size → (Agreement.new (c.siteOf k)).recordOf j = .new c.clients := by
    intro j inCluster
    simp [Agreement.recordOf, Agreement.new, Cluster.siteOf, inCluster]
  refine ⟨inRange, length, fun j inCluster => ?_, fun j _ => ?_⟩
  · rw [fresh j inCluster]
    exact .new _
  · by_cases inCluster : j < c.size
    · rw [fresh j inCluster]
      exact .new _
    · rw [Agreement.recordOf_eq_blank (length ▸ Nat.le_of_not_lt inCluster)]
      exact ⟨fun _ pending => absurd pending List.not_mem_nil,
        fun _ queued => absurd queued List.not_mem_nil⟩

theorem Guarded.put (guarded : Guarded c faulty deeds e) (found : e.replicas[k]? = some s)
    (changed : t.Screened (Vetted c deeds) (Trusts faulty deeds k) (c.siteOf k)) :
    Guarded c faulty deeds (e.put k t) :=
  ⟨forall_put guarded.tables ⟨(guarded.tables k s found).1, changed⟩, guarded.sent⟩

theorem Guarded.act (guarded : Guarded c faulty deeds e)
    (few : c.nodes.countP faulty ≤ c.faults) {action : Action} (listed : .act action ∈ deeds) :
    Guarded c faulty deeds (e.act c action) := by
  have correct : ∀ k j, faulty j = false → Trusts faulty deeds k j := fun _ _ => .inl
  refine act_cases action guarded ?_ ?_ ?_ ?_
  · intro k s q _ found
    obtain ⟨inRange, screened⟩ := guarded.tables k s found
    have after := guarded.put found (screened.submit inRange fun (known : q.client < c.clients) =>
      .inl known)
    exact ⟨after.tables, after.sent⟩
  · intro k s sender r found wasSent
    obtain ⟨-, screened⟩ := guarded.tables k s found
    have vetted := guarded.sent (sender, r) wasSent
    exact guarded.put found (screened.receive vetted.1 fun _ _ => vetted.2)
  · rintro k s answers rfl found
    obtain ⟨inRange, screened⟩ := guarded.tables k s found
    have after := screened.round few (correct k) inRange (.inr (.inl rfl))
      fun primary told => .inr (.inr ⟨answers, listed, told⟩)
    refine ⟨(guarded.put found after).tables, fun m member => ?_⟩
    rcases List.mem_append.mp member with before | now
    · exact guarded.sent m before
    · obtain rfl := List.mem_singleton.mp now
      exact ⟨(after.past k inRange).logged, after.future k (.inr (.inl rfl))⟩
  · intro k s t function reply _ found answered
    obtain ⟨-, screened⟩ := guarded.tables k s found
    have records := Agreement.records_call answered
    have same : ∀ j, t.recordOf j = s.recordOf j := fun j => by
      rw [Agreement.recordOf, records, Agreement.recordOf]
    refine guarded.put found ⟨records ▸ screened.length, fun j inCluster => ?_, fun j trust => ?_⟩
    · rw [same]
      exact screened.past j inCluster
    · rw [same]
      exact screened.future j trust

theorem Guarded.suffer (guarded : Guarded c faulty deeds e)
    (few : c.nodes.countP faulty ≤ c.faults) {deed : Deed} (listed : deed ∈ deeds)
    (admitted : deed.Admits faulty) : Guarded c faulty deeds (e.suffer c deed) := by
  cases deed with
  | act action => exact guarded.act few listed
  | forge receiver sender r =>
      rw [Ensemble.suffer]
      split
      · exact guarded
      · next s found =>
          obtain ⟨-, screened⟩ := guarded.tables receiver s found
          refine guarded.put found (screened.receive (fun a logged => ?_) fun other trust => ?_)
          · exact .inr ⟨receiver, sender, r, listed, .inl (List.mem_map_of_mem logged)⟩
          · have admitted : faulty sender = true := admitted
            rcases trust with correct | itself | told
            · rw [admitted] at correct
              contradiction
            · exact absurd itself other
            · exact ⟨fun q pending => .inr ⟨receiver, sender, r, listed, .inr ⟨told, .inl pending⟩⟩,
                fun a queued => .inr ⟨receiver, sender, r, listed,
                  .inr ⟨told, .inr (List.mem_map_of_mem queued)⟩⟩⟩

theorem guarded_runDeeds {done : List Deed} (few : c.nodes.countP faulty ≤ c.faults)
    (listed : ∀ deed ∈ done, deed ∈ deeds) (admitted : ∀ deed ∈ done, deed.Admits faulty) :
    Guarded c faulty deeds (runDeeds c done) :=
  List.foldlRecOn _ _ (guarded_start c faulty deeds) fun _ guarded deed member =>
    guarded.suffer few (listed deed member) (admitted deed member)

/-- Where no more than `F` processes are faulty, a replica executes the request of a stranger only
if a faulty process has brought it in; and as long as none has, the replica keeps exactly one reply
for each client. -/
theorem strangers_only_brought_in (few : c.nodes.countP faulty ≤ c.faults)
    (admitted : ∀ deed ∈ deeds, deed.Admits faulty)
    (found : (runDeeds c deeds).replicas[k]? = some s) :
    ((s.own (c.siteOf k)).replies.length = c.clients ∨
        ∃ q, c.clients ≤ q.client ∧ BroughtIn deeds q) ∧
      ∀ answers, ∀ a ∈ s.roundExecutes (c.siteOf k) answers,
        a.request.client < c.clients ∨
          BroughtIn (deeds ++ [.act (.round k answers)]) a.request := by
  constructor
  · obtain ⟨inRange, screened⟩ :=
      (guarded_runDeeds few (fun _ => id) admitted).tables k s found
    refine (screened.past k inRange).replies.imp_right ?_
    rintro ⟨q, stranger, known | broughtIn⟩
    · exact absurd known (Nat.not_lt.mpr stranger)
    · exact ⟨q, stranger, broughtIn⟩
  · intro answers a executed
    have listed : Deed.act (.round k answers) ∈ deeds ++ [.act (.round k answers)] :=
      List.mem_append_right _ (List.mem_singleton_self _)
    have guarded : Guarded c faulty (deeds ++ [.act (.round k answers)]) (runDeeds c deeds) :=
      guarded_runDeeds few (fun _ => List.mem_append_left _) admitted
    obtain ⟨inRange, screened⟩ := guarded.tables k s found
    exact screened.of_mem_roundExecutes few (fun _ => .inl) inRange (.inr (.inl rfl))
      (fun primary told => .inr (.inr ⟨answers, listed, told⟩)) executed

/-- The first process of six is faulty. -/
def firstIsFaulty (k : NodeId) : Bool :=
  k = 0

/-- The first request of a client that nobody knows, at number 1 of the first view. -/
def strangeRequest : AssignedRequest :=
  { request := timedRequest 7 1, view := .id 0, seq := 1 }

/-- The first process shows three others the request of a stranger as committed.  As the primary it
is followed, and one of the three hears of the others that they have done so. -/
def strangeRun : List Deed :=
  [1, 2, 3].map (.forge · 0
      (Agreement.votingRecord (StatusSet.prepared.insert .commit) [strangeRequest])) ++
    [.act (.round 1 (reporting 0)), .act (.round 2 (reporting 0)), .act (.round 3 (reporting 0)),
      .act (.deliver 1 1), .act (.deliver 1 2)]

theorem admits_strangeRun : ∀ deed ∈ strangeRun, deed.Admits firstIsFaulty := by
  decide

theorem executes_strangeRun :
    ((runDeeds (.new 6 1) strangeRun).replicas[1]?.map fun s =>
      (s.roundExecutes ((Cluster.new 6 1).siteOf 1) (reporting 0),
        ((s.round ((Cluster.new 6 1).siteOf 1) (reporting 0)).state.own
          ((Cluster.new 6 1).siteOf 1)).replies.length)) = some ([strangeRequest], 8) := by
  cbv

/-- The stranger has been brought in. -/
theorem stranger_brought_in :
    (Cluster.new 6 1).nodes.countP firstIsFaulty ≤ (Cluster.new 6 1).faults ∧
      (∀ deed ∈ strangeRun, deed.Admits firstIsFaulty) ∧
      ∃ s, (runDeeds (.new 6 1) strangeRun).replicas[1]? = some s ∧
        ((s.own ((Cluster.new 6 1).siteOf 1)).replies.length = 1 ∨
          ∃ q, 1 ≤ q.client ∧ BroughtIn strangeRun q) ∧
        BroughtIn (strangeRun ++ [.act (.round 1 (reporting 0))]) strangeRequest.request := by
  obtain ⟨s, found, shown⟩ := Option.map_eq_some_iff.mp executes_strangeRun
  have few : (Cluster.new 6 1).nodes.countP firstIsFaulty ≤ (Cluster.new 6 1).faults := by decide
  obtain ⟨replies, executes⟩ := strangers_only_brought_in few admits_strangeRun found
  have executed : strangeRequest ∈
      s.roundExecutes ((Cluster.new 6 1).siteOf 1) (reporting 0) := by
    rw [(Prod.mk.inj shown).1]
    exact List.mem_singleton_self _
  exact ⟨few, admits_strangeRun, s, found, replies,
    (executes _ _ executed).resolve_left (by decide)⟩

/-- The only faulty process of six gets a request executed whose client nobody knows, and the
replica makes room for eight clients instead of one. -/
theorem stranger_executed :
    (Cluster.new 6 1).nodes.countP firstIsFaulty ≤ (Cluster.new 6 1).faults ∧
      (∀ deed ∈ strangeRun, deed.Admits firstIsFaulty) ∧ firstIsFaulty 1 = false ∧
      ∃ s, (runDeeds (.new 6 1) strangeRun).replicas[1]? = some s ∧
        (∃ a ∈ s.roundExecutes ((Cluster.new 6 1).siteOf 1) (reporting 0),
          (Cluster.new 6 1).clients ≤ a.request.client) ∧
        ((s.round ((Cluster.new 6 1).siteOf 1) (reporting 0)).state.own
          ((Cluster.new 6 1).siteOf 1)).replies.length = 8 := by
  obtain ⟨s, found, shown⟩ := Option.map_eq_some_iff.mp executes_strangeRun
  obtain ⟨executes, replies⟩ := Prod.mk.inj shown
  refine ⟨by decide, admits_strangeRun, rfl, s, found, ⟨strangeRequest, ?_, by decide⟩, replies⟩
  rw [executes]
  exact List.mem_singleton_self _

end Ensemble

end QuorumList
