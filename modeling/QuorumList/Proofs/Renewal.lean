import QuorumList.Proofs.CommonHistory
import QuorumList.Proofs.Lawful
import QuorumList.Proofs.Votes

/-!
Renewal.

The primary of a new view starts from its pending requests, and puts behind them what was in flight:
what it has under agreement itself, and what an adopting quorum has pending or under agreement.  It
keeps the first request of each origin that does not count as executed, and no more than it may keep
pending.

Whether a request counts as executed depends on its origin only.  So a request that is not taken up
has a predecessor of its origin that is, and it is lost only to the bound.
-/
namespace QuorumList

namespace ClientRequest

variable {p q : ClientRequest}

theorem sameOrigin_self (q : ClientRequest) : q.sameOrigin q = true := by
  simp [sameOrigin]

theorem sameOrigin_iff :
    p.sameOrigin q = true ↔ p.client = q.client ∧ p.timestamp = q.timestamp := by
  simp [sameOrigin]

theorem sameOrigin_congr (same : p.sameOrigin q = true) (r : ClientRequest) :
    r.sameOrigin p = r.sameOrigin q := by
  obtain ⟨client, timestamp⟩ := sameOrigin_iff.mp same
  simp only [sameOrigin, client, timestamp]

end ClientRequest

/-- Requests of one origin count as executed together. -/
theorem Record.executed_of_sameOrigin {p q : ClientRequest} (same : p.sameOrigin q = true)
    (r : Record) : r.executed p = r.executed q := by
  obtain ⟨client, timestamp⟩ := ClientRequest.sameOrigin_iff.mp same
  simp only [executed, client, timestamp, ClientRequest.sameOrigin_congr same]

/-- The first request of a list that is of the origin of another request. -/
def firstOfOrigin? (requests : List ClientRequest) (q : ClientRequest) : Option ClientRequest :=
  requests.find? fun p => p.sameOrigin q

theorem firstOfOrigin?_congr {p q : ClientRequest} (same : p.sameOrigin q = true)
    (requests : List ClientRequest) : firstOfOrigin? requests p = firstOfOrigin? requests q := by
  simp only [firstOfOrigin?, ClientRequest.sameOrigin_congr same]

theorem firstOfOrigin?_cons_self_iff {first q : ClientRequest} {rest : List ClientRequest} :
    firstOfOrigin? (first :: rest) q = some q ↔
      q = first ∨ first.sameOrigin q = false ∧ firstOfOrigin? rest q = some q := by
  rw [firstOfOrigin?, List.find?_cons_eq_some, Bool.not_eq_eq_eq_not, Bool.not_true,
    eq_comm (a := q)]
  refine or_congr_left ⟨And.right, fun isFirst => ⟨?_, isFirst⟩⟩
  rw [isFirst]
  exact q.sameOrigin_self

/-- Every request of a list has a first one of its origin there. -/
theorem exists_firstOfOrigin {requests : List ClientRequest} {q : ClientRequest}
    (member : q ∈ requests) :
    ∃ p ∈ requests, p.sameOrigin q = true ∧ firstOfOrigin? requests q = some p := by
  have present : (firstOfOrigin? requests q).isSome = true :=
    List.find?_isSome.mpr ⟨q, member, q.sameOrigin_self⟩
  obtain ⟨p, found⟩ := Option.isSome_iff_exists.mp present
  exact ⟨p, List.mem_of_find?_eq_some found, (List.find?_eq_some_iff_append.mp found).1, found⟩

namespace Agreement

variable {site : Site} {s : Agreement} {own : Record}

/-! ### The first of each origin -/

theorem mem_keepFirst {kept : List ClientRequest} {first q : ClientRequest} :
    q ∈ keepFirst own kept first ↔
      q ∈ kept ∨ q = first ∧ own.executed q = false ∧ ∀ p ∈ kept, p.sameOrigin q = false := by
  unfold keepFirst
  split
  · next taken =>
      refine ⟨.inl, fun which => which.resolve_right ?_⟩
      rintro ⟨rfl, unexecuted, fresh⟩
      simp only [unexecuted, Bool.false_or, List.any_eq_true] at taken
      obtain ⟨p, member, same⟩ := taken
      exact absurd same (Bool.eq_false_iff.mp (fresh p member))
  · next new =>
      simp only [Bool.or_eq_true, not_or, Bool.not_eq_true, List.any_eq_false] at new
      rw [List.mem_append, List.mem_singleton]
      refine or_congr_right ⟨?_, And.left⟩
      rintro rfl
      exact ⟨rfl, new⟩

/-- An origin that does not count as executed stays free exactly if the request is not of it. -/
theorem fresh_keepFirst_iff {kept : List ClientRequest} {first q : ClientRequest}
    (unexecuted : own.executed q = false) :
    (∀ p ∈ keepFirst own kept first, p.sameOrigin q = false) ↔
      (∀ p ∈ kept, p.sameOrigin q = false) ∧ first.sameOrigin q = false := by
  constructor
  · intro fresh
    have old : ∀ p ∈ kept, p.sameOrigin q = false := fun p member =>
      fresh p (mem_keepFirst.mpr (.inl member))
    refine ⟨old, Bool.eq_false_iff.mpr fun same => ?_⟩
    -- A request of this origin would have been taken up itself.
    have taken : first ∈ keepFirst own kept first := mem_keepFirst.mpr <| .inr
      ⟨rfl, (Record.executed_of_sameOrigin same own).trans unexecuted, fun p member =>
        (ClientRequest.sameOrigin_congr same p).trans (old p member)⟩
    exact absurd same (Bool.eq_false_iff.mp (fresh first taken))
  · rintro ⟨old, other⟩ p member
    rcases mem_keepFirst.mp member with before | ⟨rfl, -⟩
    · exact old p before
    · exact other

/-- Kept are the requests that were kept before and, of every other origin that does not count as
executed, the first one. -/
theorem mem_foldl_keepFirst {requests kept : List ClientRequest} {q : ClientRequest} :
    q ∈ requests.foldl (keepFirst own) kept ↔
      q ∈ kept ∨ own.executed q = false ∧ (∀ p ∈ kept, p.sameOrigin q = false) ∧
        firstOfOrigin? requests q = some q := by
  induction requests generalizing kept with
  | nil => simp [firstOfOrigin?]
  | cons first rest ih =>
      rw [List.foldl_cons, ih, mem_keepFirst, firstOfOrigin?_cons_self_iff]
      -- Of a request that counts as executed both sides only say whether it was kept before.
      by_cases unexecuted : own.executed q = false
      · rw [fresh_keepFirst_iff unexecuted]
        tauto
      · tauto

/-- What is kept of a list behind other requests stands in the order of the list. -/
theorem foldl_keepFirst_eq_append (own : Record) (requests kept : List ClientRequest) :
    ∃ added, added.Sublist requests ∧ requests.foldl (keepFirst own) kept = kept ++ added := by
  induction requests generalizing kept with
  | nil => exact ⟨[], .slnil, (List.append_nil kept).symm⟩
  | cons first rest ih =>
      obtain ⟨added, part, result⟩ := ih (keepFirst own kept first)
      rw [List.foldl_cons, result]
      unfold keepFirst
      split
      · exact ⟨added, part.cons first, rfl⟩
      · exact ⟨first :: added, part.cons_cons first, List.append_assoc ..⟩

/-- A request that does not count as executed is represented by the first one of its origin. -/
theorem exists_mem_foldl_keepFirst {requests : List ClientRequest} {q : ClientRequest}
    (member : q ∈ requests) (unexecuted : own.executed q = false) :
    ∃ p ∈ requests.foldl (keepFirst own) [],
      p.sameOrigin q = true ∧ firstOfOrigin? requests q = some p := by
  obtain ⟨p, -, same, found⟩ := exists_firstOfOrigin member
  refine ⟨p, mem_foldl_keepFirst.mpr (.inr ⟨?_, nofun, ?_⟩), same, found⟩
  · rwa [Record.executed_of_sameOrigin same]
  · rwa [firstOfOrigin?_congr same]

/-! ### What may be renewed -/

/-- A request is in flight for this process: it has it under agreement itself, or an adopting quorum
of the records has it pending, or an adopting quorum has it under agreement. -/
def InFlight (site : Site) (s : Agreement) (q : ClientRequest) : Prop :=
  q ∈ queuedRequests (s.own site) ∨
    site.cluster.adoptQuorum ≤ s.records.countP (fun r => q ∈ r.pending) ∨
    site.cluster.adoptQuorum ≤ s.records.countP (fun r => q ∈ queuedRequests r)

/-- What is widely known is pending or queued somewhere, so that the primary comes across it. -/
theorem mem_knownPending {q : ClientRequest} :
    q ∈ s.knownPending site ↔ s.widelyKnown site q = true := by
  simp only [knownPending, List.mem_mergeSort, List.mem_eraseDups, List.mem_filter,
    and_iff_right_iff_imp, List.mem_flatMap]
  intro widely
  simp only [widelyKnown, Bool.or_eq_true, decide_eq_true_eq] at widely
  have positive := adoptQuorum_pos site.cluster
  rcases widely with pending | queued
  · obtain ⟨r, member, has⟩ := List.countP_pos_iff.mp (Nat.lt_of_lt_of_le positive pending)
    exact ⟨r, member, List.mem_append_left _ (List.contains_iff_mem.mp has)⟩
  · obtain ⟨r, member, has⟩ := List.countP_pos_iff.mp (Nat.lt_of_lt_of_le positive queued)
    exact ⟨r, member, List.mem_append_right _ (List.contains_iff_mem.mp has)⟩

theorem inFlight_iff {q : ClientRequest} :
    s.InFlight site q ↔ q ∈ queuedRequests (s.own site) ++ s.knownPending site := by
  rw [List.mem_append, mem_knownPending]
  simp [InFlight, widelyKnown]

/-! ### The renewed requests -/

theorem updateOwn_eq_set (inTable : site.me < s.records.length) (f : Record → Record) :
    s.updateOwn site f =
      { s with records := s.records.set site.me ((s.updateOwn site f).own site) } := by
  rw [own_updateOwn inTable]
  simp [updateOwn, Agreement.own, recordOf, List.modify_eq_set, inTable]

/-- What the primary had pending itself comes first, and behind it comes what was in flight. -/
theorem renewedRequests_eq_append
    (fits : (s.own site).pending.length ≤ site.cluster.pendingCapacity) :
    ∃ further, further.Sublist (queuedRequests (s.own site) ++ s.knownPending site) ∧
      s.renewedRequests site =
        (s.own site).pending.foldl (keepFirst (s.own site)) [] ++ further := by
  obtain ⟨kept, partOwn, ofOwn⟩ := foldl_keepFirst_eq_append (s.own site) (s.own site).pending []
  obtain ⟨added, part, result⟩ := foldl_keepFirst_eq_append (s.own site)
    (queuedRequests (s.own site) ++ s.knownPending site) kept
  rw [List.nil_append] at ofOwn
  have short : kept.length ≤ site.cluster.pendingCapacity := Nat.le_trans partOwn.length_le fits
  refine ⟨_, (List.take_sublist (site.cluster.pendingCapacity - kept.length) added).trans part, ?_⟩
  unfold renewedRequests
  dsimp only
  rw [List.append_assoc, List.foldl_append, ofOwn, result, List.take_append,
    List.take_of_length_le short]

theorem unexecuted_of_mem_renewedRequests {q : ClientRequest}
    (renewed : q ∈ s.renewedRequests site) : (s.own site).executed q = false := by
  rcases mem_foldl_keepFirst.mp (List.mem_of_mem_take renewed) with old | ⟨unexecuted, -⟩
  · exact absurd old List.not_mem_nil
  · exact unexecuted

/-- Only the bound keeps a request in flight from being represented. -/
theorem represented_or_full {q : ClientRequest} (inFlight : s.InFlight site q)
    (unexecuted : (s.own site).executed q = false) :
    (∃ p ∈ s.renewedRequests site, p.sameOrigin q = true) ∨
      (s.renewedRequests site).length = site.cluster.pendingCapacity := by
  have candidate : q ∈ (s.own site).pending ++ queuedRequests (s.own site) ++
      s.knownPending site := by
    rw [List.append_assoc]
    exact List.mem_append_right _ (inFlight_iff.mp inFlight)
  obtain ⟨p, kept, same, -⟩ := exists_mem_foldl_keepFirst candidate unexecuted
  unfold renewedRequests
  dsimp only
  rcases Nat.le_total (List.length _) site.cluster.pendingCapacity with room | full
  · rw [List.take_of_length_le room]
    exact .inl ⟨p, kept, same⟩
  · exact .inr (List.length_take_of_le full)

/-- The new primary keeps what it may keep.  Of its pending requests those that do not count as
executed stay in front and in their order, each origin with its first request.  Only requests in
flight come behind them, and none of these is lost except to the bound. -/
theorem renewRequests_keeps (inTable : site.me < s.records.length)
    (fits : (s.own site).pending.length ≤ site.cluster.pendingCapacity) :
    let own := s.own site
    let renewed := (s.renewRequests site).own site
    (renewed.pending.length ≤ site.cluster.pendingCapacity ∧ DistinctOrigins renewed.pending ∧
        ∀ q ∈ renewed.pending, renewed.executed q = false) ∧
      (∃ kept further, renewed.pending = kept ++ further ∧ kept.Sublist own.pending ∧
        (∀ q ∈ own.pending, own.executed q = false →
          ∃ p ∈ kept, firstOfOrigin? own.pending q = some p) ∧
        ∀ q ∈ further, s.InFlight site q) ∧
      (∀ q, s.InFlight site q → own.executed q = false →
        (∃ p ∈ renewed.pending, p.sameOrigin q = true) ∨
          renewed.pending.length = site.cluster.pendingCapacity) ∧
      renewed = { own with pending := renewed.pending, queue := [], seq := own.lastExec } ∧
      s.renewRequests site = { s with records := s.records.set site.me renewed } := by
  intro own renewed
  have result : renewed =
      { own with pending := s.renewedRequests site, queue := [], seq := own.lastExec } :=
    own_updateOwn inTable _
  have pending : renewed.pending = s.renewedRequests site := congrArg Record.pending result
  have executed : ∀ q, renewed.executed q = own.executed q := fun q => by rw [result]; rfl
  obtain ⟨further, part, split⟩ := renewedRequests_eq_append fits
  obtain ⟨kept, ofOwn, ofFold⟩ := foldl_keepFirst_eq_append own own.pending []
  rw [pending]
  refine ⟨⟨List.length_take_le .., distinctOrigins_renewedRequests site s, fun q member => ?_⟩,
    ⟨_, further, split, ?_, fun q member unexecuted => ?_, fun q member => ?_⟩,
    fun q => represented_or_full, result, ?_⟩
  · rw [executed]
    exact unexecuted_of_mem_renewedRequests member
  · rw [ofFold]
    exact ofOwn
  · obtain ⟨p, isKept, -, first⟩ := exists_mem_foldl_keepFirst member unexecuted
    exact ⟨p, isKept, first⟩
  · exact inFlight_iff.mpr (part.subset member)
  · exact updateOwn_eq_set inTable _

/-- The first of six replicas; each may keep three requests pending. -/
def crowdedSite : Site :=
  { me := 0, cluster := (Cluster.new 6 1).withClients 3, switches := .none }

/-- A request of the crowded table, to append its timestamp. -/
def crowdedRequest (client : ClientId) (timestamp : Nat) : ClientRequest :=
  { client := client, timestamp := timestamp, operation := .append timestamp }

/-- The first replica has a request pending in two versions, and one that it has executed; it has
another request under agreement.  Four replicas have one request pending, twice each, and one under
agreement. -/
def crowdedTable : Agreement :=
  let executed : AssignedRequest := { request := crowdedRequest 1 1, view := .id 5, seq := 1 }
  let primary : Record :=
    { Record.new 3 with
      state := [1]
      log := [{ request := executed, executedBy := .empty }]
      pending :=
        [ crowdedRequest 0 1, { crowdedRequest 0 1 with operation := .pop 0 },
          crowdedRequest 1 1 ]
      queue :=
        [{ request := { request := crowdedRequest 2 1, view := .id 5, seq := 2 }
           status := .prepared }]
      seq := 2 }
  let peer : Record :=
    { Record.new 3 with
      pending := [crowdedRequest 1 2, crowdedRequest 1 2]
      queue :=
        [{ request := { request := crowdedRequest 2 2, view := .id 5, seq := 3 }
           status := .prepared }]
      seq := 3 }
  { records := primary :: List.replicate 4 peer ++ [Record.new 3]
    flush := false
    needFlush := false }

/-- The last request is widely known, and is lost to the bound only. -/
theorem crowded_renewal_keeps :
    crowdedSite.me < crowdedTable.records.length ∧
      (crowdedTable.own crowdedSite).pending.length ≤ crowdedSite.cluster.pendingCapacity ∧
      let renewed := (crowdedTable.renewRequests crowdedSite).own crowdedSite
      renewed.pending = [crowdedRequest 0 1, crowdedRequest 2 1, crowdedRequest 1 2] ∧
        (∀ q ∈ renewed.pending, renewed.executed q = false) ∧ renewed.queue = [] ∧
        renewed.seq = 1 ∧ crowdedTable.InFlight crowdedSite (crowdedRequest 2 2) ∧
        renewed.pending.length = crowdedSite.cluster.pendingCapacity := by
  have inTable : crowdedSite.me < crowdedTable.records.length := by decide
  have fits : (crowdedTable.own crowdedSite).pending.length ≤
      crowdedSite.cluster.pendingCapacity := by decide
  have known : crowdedTable.knownPending crowdedSite = [crowdedRequest 1 2, crowdedRequest 2 2] :=
    (List.mergeSort_of_pairwise (by decide +kernel)).trans (by decide +kernel)
  have pending : ((crowdedTable.renewRequests crowdedSite).own crowdedSite).pending =
      [crowdedRequest 0 1, crowdedRequest 2 1, crowdedRequest 1 2] := by
    rw [renewRequests, own_updateOwn inTable]
    dsimp only
    rw [renewedRequests, known]
    decide +kernel
  have inFlight : crowdedTable.InFlight crowdedSite (crowdedRequest 2 2) :=
    .inr (.inr (by decide))
  obtain ⟨⟨-, -, unexecuted⟩, -, complete, result, -⟩ := renewRequests_keeps inTable fits
  have full := (complete (crowdedRequest 2 2) inFlight (by decide)).resolve_left (by
    rw [pending]
    decide)
  exact ⟨inTable, fits, pending, unexecuted, congrArg Record.queue result,
    congrArg Record.seq result, inFlight, full⟩

end Agreement

end QuorumList
