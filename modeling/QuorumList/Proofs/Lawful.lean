import Mathlib.Data.List.Perm.Subperm
import QuorumList.Proofs.Adoption
import QuorumList.Proofs.Provenance

/-!
Lawful records.

While all replicas stay in one view there is one line for all of them, which the primary makes
longer as it assigns.  A record is lawful for a line when it is genuine, an adopting quorum vouches
for every entry of its log, and no two requests that it has pending, or has queued, are of one
origin.  Every phase of a round keeps the records of a table lawful; that is the whole of `proceed`,
as long as the table was lawful when the view was entered.
-/
namespace QuorumList

/-- No two requests of a list are of one origin. -/
def DistinctOrigins (requests : List ClientRequest) : Prop :=
  requests.Pairwise fun p q => p.sameOrigin q = false

theorem DistinctOrigins.sublist {requests fewer : List ClientRequest}
    (distinct : DistinctOrigins requests) (part : fewer.Sublist requests) :
    DistinctOrigins fewer :=
  List.Pairwise.sublist part distinct

theorem DistinctOrigins.append_singleton {requests : List ClientRequest} {q : ClientRequest}
    (distinct : DistinctOrigins requests) (fresh : ∀ p ∈ requests, p.sameOrigin q = false) :
    DistinctOrigins (requests ++ [q]) :=
  List.pairwise_append.mpr ⟨distinct, List.pairwise_singleton .., fun p member r isQ => by
    rw [List.mem_singleton.mp isQ]
    exact fresh p member⟩

theorem NodeSet.card_le_card_union (s t : NodeSet) : s.card ≤ (s.union t).card := by
  have nodup : s.members.Nodup := s.ascending.imp fun less => Nat.ne_of_lt less
  refine (nodup.subperm fun k member => ?_).length_le
  exact NodeSet.mem_union.mpr (.inl member)

namespace Record

/-- A list that gives no two places to one origin gives none to any request. -/
theorem anyReassigned_eq_false {requests : List AssignedRequest}
    (distinct : DistinctOrigins (requests.map AssignedRequest.request)) :
    anyReassigned requests = false := by
  induction requests with
  | nil => rfl
  | cons a rest ih =>
      obtain ⟨first, others⟩ := List.pairwise_cons.mp distinct
      rw [anyReassigned, ih others, Bool.or_false, List.any_eq_false]
      intro b member
      rw [reassigns, first b.request (List.mem_map_of_mem member), Bool.false_and]
      exact Bool.false_ne_true

/-- An adopting quorum vouches for every entry of the log. -/
def Vouched (c : Cluster) (r : Record) : Prop :=
  ∀ e ∈ r.log, c.adoptQuorum ≤ e.executedBy.card

instance (c : Cluster) (r : Record) : Decidable (r.Vouched c) :=
  inferInstanceAs (Decidable (∀ e ∈ r.log, _))

theorem vouched_new (c : Cluster) (clients : Nat) : (Record.new clients).Vouched c := by
  intro e member
  exact absurd member List.not_mem_nil

/-! ### Lawful records -/

/-- A record is genuine for the line of its view, and what it holds is in order. -/
structure Lawful (c : Cluster) (line : List AssignedRequest) (submitted : List ClientRequest)
    (r : Record) : Prop where
  genuine : r.Genuine c.logCapacity line
  vouched : ∀ e ∈ r.log, c.adoptQuorum ≤ e.executedBy.card
  mentions : r.Mentions (· ∈ line)
  queueDistinct : DistinctOrigins (r.queued.map AssignedRequest.request)
  pendingDistinct : DistinctOrigins r.pending
  asked : ∀ q ∈ r.pending, q ∈ submitted
  calm : r.conflict = false

namespace Lawful

variable {c : Cluster} {line : List AssignedRequest} {submitted : List ClientRequest}
  {r other : Record}

theorem new (clients : Nat) : (Record.new clients).Lawful c line submitted where
  genuine := .of_empty rfl rfl
  vouched := vouched_new c clients
  mentions := .new clients
  queueDistinct := by simp [Record.new, blank, queued, DistinctOrigins]
  pendingDistinct := by simp [Record.new, blank, DistinctOrigins]
  asked := by simp [Record.new, blank]
  calm := rfl

/-- A longer line and more submitted requests change nothing. -/
theorem mono (lawful : r.Lawful c line submitted) (more : List AssignedRequest)
    {wider : List ClientRequest} (wide : submitted ⊆ wider) :
    r.Lawful c (line ++ more) wider where
  genuine := lawful.genuine.append more
  vouched := lawful.vouched
  mentions := lawful.mentions.mono fun _ member => List.mem_append_left _ member
  queueDistinct := lawful.queueDistinct
  pendingDistinct := lawful.pendingDistinct
  asked := fun q member => wide (lawful.asked q member)
  calm := lawful.calm

/-- A record may queue other requests of the line. -/
theorem of_queue (lawful : r.Lawful c line submitted) (state : other.state = r.state)
    (log : other.log = r.log) (pending : other.pending = r.pending)
    (calm : other.conflict = false) (inLine : ∀ a ∈ other.queued, a ∈ line)
    (distinct : DistinctOrigins (other.queued.map AssignedRequest.request)) :
    other.Lawful c line submitted where
  genuine := lawful.genuine.congr (by rw [logged, logged, log]) state
  vouched := log ▸ lawful.vouched
  mentions := by
    rintro a (queued | shown)
    · exact inLine a queued
    · rw [logged, log] at shown
      exact lawful.mentions a (.inr shown)
  queueDistinct := distinct
  pendingDistinct := pending ▸ lawful.pendingDistinct
  asked := pending ▸ lawful.asked
  calm := calm

/-- The stance and the statuses in the queue do not matter. -/
theorem of_eq (lawful : r.Lawful c line submitted) (state : other.state = r.state)
    (log : other.log = r.log) (queue : other.queued = r.queued)
    (pending : other.pending = r.pending) (calm : other.conflict = false) :
    other.Lawful c line submitted := by
  refine lawful.of_queue state log pending calm (fun a queued => ?_) (queue ▸ lawful.queueDistinct)
  rw [queue] at queued
  exact lawful.mentions a (.inl queued)

theorem pruneExecuted (lawful : r.Lawful c line submitted) :
    r.pruneExecuted.Lawful c line submitted where
  genuine := lawful.genuine.congr rfl rfl
  vouched := lawful.vouched
  mentions := lawful.mentions.pruneExecuted
  queueDistinct := lawful.queueDistinct.sublist ((List.filter_sublist.map _).map _)
  pendingDistinct := lawful.pendingDistinct.sublist List.filter_sublist
  asked := fun q member => lawful.asked q (List.mem_filter.mp member).1
  calm := lawful.calm

theorem sanitize (lawful : r.Lawful c line submitted) (clients pendingCapacity : Nat) :
    (r.sanitize clients pendingCapacity c.logCapacity).Lawful c line submitted where
  genuine := by
    obtain ⟨n, reached, log, state⟩ := lawful.genuine
    refine ⟨n, reached, ?_, state⟩
    have whole : (lastEntries c.logCapacity r.log).map LogEntry.request =
        lastEntries c.logCapacity r.logged := map_lastEntries ..
    exact whole.trans (by rw [log, lastEntries_lastEntries])
  vouched := fun e member => lawful.vouched e (mem_lastEntries member)
  mentions := lawful.mentions.sanitize _ _ _
  queueDistinct := lawful.queueDistinct.sublist (((List.take_sublist ..).map _).map _)
  pendingDistinct := lawful.pendingDistinct.sublist (List.take_sublist ..)
  asked := fun q member => lawful.asked q (List.mem_of_mem_take member)
  calm := lawful.calm

theorem apply (room : 0 < c.logCapacity) (numbered : Numbered line)
    (lawful : r.Lawful c line submitted) {a : AssignedRequest} (inLine : a ∈ line)
    (next : a.seq = r.lastExec + 1) {executedBy : NodeSet}
    (quorum : c.adoptQuorum ≤ executedBy.card) :
    (r.apply a executedBy c.logCapacity).Lawful c line submitted where
  genuine := lawful.genuine.apply room numbered inLine next executedBy
  vouched := by
    intro e member
    cases List.mem_append.mp (mem_lastEntries member) with
    | inl old => exact lawful.vouched e old
    | inr new =>
        rw [List.mem_singleton.mp new]
        exact quorum
  mentions := lawful.mentions.apply inLine _ _
  queueDistinct := lawful.queueDistinct.sublist ((List.filter_sublist.map _).map _)
  pendingDistinct := lawful.pendingDistinct.sublist List.filter_sublist
  asked := fun q member => lawful.asked q (List.mem_filter.mp member).1
  calm := lawful.calm

/-- A record may take over the history of another one. -/
theorem adopt (lawful : r.Lawful c line submitted) {source : Record}
    (ofSource : source.Lawful c line submitted) (replies : List (Option LastReply)) :
    ({ r with
        conflict := false
        state := source.state
        log := source.log
        replies := replies } : Record).Lawful c line submitted where
  genuine := ofSource.genuine.congr rfl rfl
  vouched := ofSource.vouched
  mentions := lawful.mentions.of_log ofSource.mentions rfl rfl
  queueDistinct := lawful.queueDistinct
  pendingDistinct := lawful.pendingDistinct
  asked := lawful.asked
  calm := rfl

end Lawful

end Record

/-! ### Lawful tables -/

/-- The requests that the primary of a view has assigned while all replicas stay in the view. -/
structure ViewLine (view : View) (submitted : List ClientRequest) (line : List AssignedRequest) :
    Prop where
  numbered : Numbered line
  inView : ∀ a ∈ line, a.view = view
  asked : ∀ a ∈ line, a.request ∈ submitted
  short : line.length ≤ Json.maxUnsigned

namespace Agreement

/-- A sound record is corrupt exactly when no quorum vouches for some entry of its log. -/
theorem corrupt_iff_of_sound {site : Site} {s : Agreement}
    (isSound : sound site (s.own site) = true) :
    s.corrupt site = true ↔ ¬(s.own site).Vouched site.cluster := by
  obtain ⟨below, noGap, once⟩ := sound_iff.mp isSound
  simp [corrupt, below, noGap, once, Record.Vouched]

/-- A primary renews requests that it has pending or queued itself, or that are widely known. -/
theorem mem_renewedRequests {site : Site} {s : Agreement} {q : ClientRequest}
    (renewed : q ∈ s.renewedRequests site) :
    q ∈ (s.own site).pending ++ queuedRequests (s.own site) ++ s.knownPending site := by
  have ofCandidates : ∀ p ∈ ((s.own site).pending ++ queuedRequests (s.own site) ++
      s.knownPending site).foldl (keepFirst (s.own site)) [],
      p ∈ (s.own site).pending ++ queuedRequests (s.own site) ++ s.knownPending site := by
    refine List.foldlRecOn (motive := fun kept => ∀ p ∈ kept, p ∈ _) _ _ (by simp)
      fun kept known p candidate => ?_
    unfold keepFirst
    split
    · exact known
    · intro r inKept
      cases List.mem_append.mp inKept with
      | inl old => exact known r old
      | inr new =>
          rw [List.mem_singleton.mp new]
          exact candidate
  exact ofCandidates q (List.mem_of_mem_take renewed)

/-- No two of the renewed requests are of one origin. -/
theorem distinctOrigins_renewedRequests (site : Site) (s : Agreement) :
    DistinctOrigins (s.renewedRequests site) := by
  have ofKept : DistinctOrigins (((s.own site).pending ++ queuedRequests (s.own site) ++
      s.knownPending site).foldl (keepFirst (s.own site)) []) := by
    refine List.foldlRecOn (motive := DistinctOrigins) _ _ .nil fun kept distinct q _ => ?_
    unfold keepFirst
    split
    · exact distinct
    · next fresh =>
        simp only [Bool.or_eq_true, not_or, List.any_eq_true, not_exists, not_and,
          Bool.not_eq_true] at fresh
        exact distinct.append_singleton fresh.2
  exact ofKept.sublist (List.take_sublist ..)

theorem keepFirst_extends (own : Record) (kept requests : List ClientRequest) :
    kept <+: requests.foldl (keepFirst own) kept :=
  List.foldlRecOn (motive := fun later => kept <+: later) requests _ (List.prefix_refl kept)
    fun later start q _ => by
      unfold keepFirst
      split
      · exact start
      · exact start.trans (List.prefix_append ..)

/-- Of requests of different origins those that were not executed are kept. -/
theorem foldl_keepFirst {own : Record} {kept requests : List ClientRequest}
    (distinct : DistinctOrigins (kept ++ requests)) :
    requests.foldl (keepFirst own) kept = kept ++ requests.filter fun q => !own.executed q := by
  induction requests generalizing kept with
  | nil => simp
  | cons q rest ih =>
      have fresh : kept.any (fun r => r.sameOrigin q) = false := by
        rw [List.any_eq_false]
        intro r member
        simpa using (List.pairwise_append.mp distinct).2.2 r member q List.mem_cons_self
      rw [List.foldl_cons, keepFirst, fresh, Bool.or_false]
      cases counted : own.executed q with
      | true =>
          have fewer : (kept ++ rest).Sublist (kept ++ q :: rest) :=
            (List.Sublist.refl kept).append (List.sublist_cons_self q rest)
          simpa [counted] using ih (distinct.sublist fewer)
      | false =>
          have moved : DistinctOrigins ((kept ++ [q]) ++ rest) := by simpa using distinct
          simpa [counted] using ih moved

/-- A new primary keeps what it has pending itself, unless it counts as executed. -/
theorem mem_renewedRequests_of_pending {site : Site} {s : Agreement} {q : ClientRequest}
    (distinct : DistinctOrigins (s.own site).pending)
    (fits : (s.own site).pending.length ≤ site.cluster.pendingCapacity)
    (pending : q ∈ (s.own site).pending) (unexecuted : (s.own site).executed q = false) :
    q ∈ s.renewedRequests site := by
  have kept : (s.own site).pending.foldl (keepFirst (s.own site)) [] =
      (s.own site).pending.filter fun q => !(s.own site).executed q :=
    foldl_keepFirst (by simpa using distinct)
  have start : (s.own site).pending.filter (fun q => !(s.own site).executed q) <+:
      s.renewedRequests site := by
    unfold renewedRequests
    dsimp only
    rw [List.prefix_take_iff, List.append_assoc, List.foldl_append, kept]
    exact ⟨keepFirst_extends .., Nat.le_trans (List.length_filter_le ..) fits⟩
  exact start.subset (List.mem_filter.mpr ⟨pending, by simp [unexecuted]⟩)

/-- The table of a replica holds a lawful record of each process. -/
structure Lawful (site : Site) (line : List AssignedRequest) (submitted : List ClientRequest)
    (s : Agreement) : Prop where
  length : s.records.length = site.cluster.size
  member : site.me < site.cluster.size
  records : ∀ r ∈ s.records, r.Lawful site.cluster line submitted

/-- All numbers of a table are below the limit. -/
def Below (site : Site) (s : Agreement) : Prop :=
  ∀ r ∈ s.records, r.seqsBelow site.cluster.seqLimit = true

namespace Lawful

variable {site : Site} {s : Agreement} {view : View} {line : List AssignedRequest}
  {submitted : List ClientRequest}

theorem inTable (lawful : s.Lawful site line submitted) : site.me < s.records.length := by
  rw [lawful.length]
  exact lawful.member

theorem recordOf (lawful : s.Lawful site line submitted) (k : NodeId) :
    (s.recordOf k).Lawful site.cluster line submitted := by
  by_cases inTable : k < s.records.length
  · exact lawful.records _ (recordOf_mem inTable)
  · rw [recordOf_eq_blank (Nat.le_of_not_lt inTable)]
    exact .new 0

theorem updateOwn (lawful : s.Lawful site line submitted) {f : Record → Record}
    (changed : (s.own site).Lawful site.cluster line submitted →
      (f (s.own site)).Lawful site.cluster line submitted) :
    (s.updateOwn site f).Lawful site line submitted where
  length := by rw [length_records_updateOwn, lawful.length]
  member := lawful.member
  records := forall_updateOwn lawful.records changed

theorem mono (lawful : s.Lawful site line submitted) (more : List AssignedRequest)
    {wider : List ClientRequest} (wide : submitted ⊆ wider) :
    s.Lawful site (line ++ more) wider where
  length := lawful.length
  member := lawful.member
  records := fun r member => (lawful.records r member).mono more wide

/-- Over a lawful table with small numbers everybody's record is sound and genuine. -/
theorem mostlyGenuine (lawful : s.Lawful site line submitted)
    (ofView : ViewLine view submitted line) (below : s.Below site) :
    s.MostlyGenuine site line fun _ => true where
  length := lawful.length
  member := lawful.member
  own := rfl
  most := by simp [Cluster.nodes]
  isSound := by
    intro k inRange _
    have ofK := lawful.recordOf k
    have noGap : (s.recordOf k).logGaps = false := by
      apply ofK.genuine.logGaps_eq_false ofView.numbered
      intro a shown
      exact Nat.le_trans (ofView.numbered.seq_le_length (ofK.mentions a (.inr shown))) ofView.short
    have noDouble : (s.recordOf k).double = false :=
      Record.anyReassigned_eq_false ofK.queueDistinct
    have isBelow := below _ (recordOf_mem (by rw [lawful.length]; exact inRange))
    exact sound_iff.mpr ⟨isBelow, noGap, noDouble⟩
  genuine := fun k _ _ => (lawful.recordOf k).genuine

/-! ### Entering the view -/

/-- Over a lawful table a common history is always found. -/
theorem findCommonHistory (configured : site.cluster.Configured)
    (enough : 3 * site.cluster.faults < site.cluster.size) (ofView : ViewLine view submitted line)
    (below : s.Below site) (lawful : s.Lawful site line submitted) :
    (s.findCommonHistory site).Lawful site line submitted := by
  have quorum : site.cluster.adoptQuorum ≤ site.cluster.nodes.countP fun _ => true := by
    simp only [List.countP_true, Cluster.nodes, List.length_range, Cluster.adoptQuorum]
    omega
  obtain ⟨state, holder, chosen, rfl, _⟩ := (lawful.mostlyGenuine ofView below).exists_adoptable
    configured.logCapacity_pos ofView.numbered quorum
  unfold Agreement.findCommonHistory
  rw [chosen]
  apply lawful.updateOwn
  intro own
  dsimp only
  split
  · exact own.of_eq rfl rfl rfl rfl rfl
  · split
    · exact own.of_eq rfl rfl rfl rfl rfl
    · exact .pruneExecuted (own.adopt (lawful.recordOf holder) _)

theorem trackView (lawful : s.Lawful site line submitted) (view : View) :
    (s.trackView site view).Lawful site line submitted := by
  unfold Agreement.trackView
  split
  · exact lawful
  · exact lawful.updateOwn fun own => own.of_eq rfl rfl rfl rfl own.calm

/-- Whatever a lawful record has pending or queued was submitted. -/
theorem asked (ofView : ViewLine view submitted line) {r : Record}
    (lawful : r.Lawful site.cluster line submitted) {q : ClientRequest}
    (held : q ∈ r.pending ++ queuedRequests r) : q ∈ submitted := by
  cases List.mem_append.mp held with
  | inl pending => exact lawful.asked q pending
  | inr queued =>
      obtain ⟨a, shown, rfl⟩ := List.mem_map.mp queued
      exact ofView.asked a (lawful.mentions a (.inl shown))

/-- The renewed requests of a primary were submitted, and no two are of one origin. -/
theorem renewedRequests (lawful : s.Lawful site line submitted)
    (ofView : ViewLine view submitted line) :
    DistinctOrigins (s.renewedRequests site) ∧ ∀ q ∈ s.renewedRequests site, q ∈ submitted := by
  refine ⟨distinctOrigins_renewedRequests site s, fun q renewed => ?_⟩
  cases List.mem_append.mp (mem_renewedRequests renewed) with
  | inl own => exact asked ofView (lawful.recordOf site.me) own
  | inr known =>
      simp only [knownPending, List.mem_mergeSort, List.mem_eraseDups, List.mem_filter,
        List.mem_flatMap] at known
      obtain ⟨⟨r, inTable, held⟩, _⟩ := known
      exact asked ofView (lawful.records r inTable) held

theorem renewRequests (lawful : s.Lawful site line submitted)
    (ofView : ViewLine view submitted line) :
    (s.renewRequests site).Lawful site line submitted := by
  obtain ⟨distinct, asked⟩ := lawful.renewedRequests ofView
  apply lawful.updateOwn
  intro own
  exact
    { genuine := own.genuine.congr rfl rfl
      vouched := own.vouched
      mentions := own.mentions.of_subset (by simp [Record.queued]) fun _ logged => logged
      queueDistinct := by simp [Record.queued, DistinctOrigins]
      pendingDistinct := distinct
      asked := asked
      calm := own.calm }

theorem followView (lawful : s.Lawful site line submitted) (view : View) (primary : NodeId) :
    (s.followView site view primary).Lawful site line submitted := by
  unfold Agreement.followView
  dsimp only
  split
  · exact lawful
  · exact lawful.updateOwn fun own =>
      (lawful.recordOf primary).of_eq rfl rfl rfl rfl own.calm

end Lawful

/-! ### Numbers below the limit -/

namespace Below

variable {site : Site} {s : Agreement}

theorem mentions (below : s.Below site) : s.Mentions fun a => a.seq < site.cluster.seqLimit :=
  fun r member => (Record.seqsBelow_iff.mp (below r member)).2

theorem seq (below : s.Below site) : ∀ r ∈ s.records, r.seq < site.cluster.seqLimit :=
  fun r member => (Record.seqsBelow_iff.mp (below r member)).1

theorem of_seq_mentions (seq : ∀ r ∈ s.records, r.seq < site.cluster.seqLimit)
    (mentions : s.Mentions fun a => a.seq < site.cluster.seqLimit) : s.Below site :=
  fun r member => Record.seqsBelow_iff.mpr ⟨seq r member, mentions r member⟩

theorem findCommonHistory (below : s.Below site) : (s.findCommonHistory site).Below site := by
  refine of_seq_mentions ?_ below.mentions.findCommonHistory
  unfold Agreement.findCommonHistory
  split
  · exact forall_updateOwn below.seq fun own => own
  · apply forall_updateOwn below.seq
    intro own
    dsimp only
    split
    · exact own
    · split
      · exact own
      · exact own

theorem trackView (below : s.Below site) (view : View) : (s.trackView site view).Below site := by
  refine of_seq_mentions ?_ (below.mentions.trackView view)
  unfold Agreement.trackView
  split
  · exact below.seq
  · exact forall_updateOwn below.seq fun own => own

theorem seq_recordOf (below : s.Below site) (inTable : site.me < s.records.length) (k : NodeId) :
    (s.recordOf k).seq < site.cluster.seqLimit := by
  by_cases inK : k < s.records.length
  · exact below.seq _ (recordOf_mem inK)
  · rw [recordOf_eq_blank (Nat.le_of_not_lt inK)]
    exact Nat.zero_lt_of_lt (below.seq _ (recordOf_mem inTable))

theorem renewRequests (below : s.Below site) (inTable : site.me < s.records.length) :
    (s.renewRequests site).Below site := by
  have lastExec : (s.own site).lastExec < site.cluster.seqLimit :=
    Record.lastExec_lt_of_seqsBelow (below _ (recordOf_mem inTable))
  refine of_seq_mentions ?_ ?_
  · exact forall_updateOwn below.seq fun _ => lastExec
  · exact forall_updateOwn below.mentions fun own =>
      own.of_subset (by simp [Record.queued]) fun _ logged => logged

theorem followView (below : s.Below site) (inTable : site.me < s.records.length) (view : View)
    (primary : NodeId) : (s.followView site view primary).Below site := by
  refine of_seq_mentions ?_ (below.mentions.followView view primary)
  unfold Agreement.followView
  dsimp only
  split
  · exact below.seq
  · exact forall_updateOwn below.seq fun _ => below.seq_recordOf inTable primary

end Below

/-! ### Lawful rounds -/

namespace Lawful

variable {site : Site} {s : Agreement} {view : View} {line : List AssignedRequest}
  {submitted : List ClientRequest}

/-- A table stays lawful, with small numbers, when the replica enters the view. -/
theorem enterView (configured : site.cluster.Configured)
    (enough : 3 * site.cluster.faults < site.cluster.size) (ofView : ViewLine view submitted line)
    (below : s.Below site) (lawful : s.Lawful site line submitted) (primary : NodeId) :
    (s.enterView site view primary).Lawful site line submitted ∧
      (s.enterView site view primary).Below site := by
  have tracked := lawful.trackView view
  have trackedBelow := below.trackView view
  unfold Agreement.enterView changeView leadView
  dsimp only
  split
  · split
    · split
      · have renewed := tracked.renewRequests ofView
        have renewedBelow := trackedBelow.renewRequests tracked.inTable
        have found := renewed.findCommonHistory configured enough ofView renewedBelow
        have foundBelow := renewedBelow.findCommonHistory
        refine ⟨found.updateOwn fun own => own.of_eq rfl rfl rfl rfl own.calm, ?_⟩
        exact forall_updateOwn foundBelow fun own => own
      · exact ⟨tracked, trackedBelow⟩
    · exact ⟨tracked.followView view primary,
        trackedBelow.followView tracked.inTable view primary⟩
  · exact ⟨tracked, trackedBelow⟩

/-- A lawful table with small numbers is no reason to flush. -/
theorem not_mustFlush (ofView : ViewLine view submitted line) (below : s.Below site)
    (lawful : s.Lawful site line submitted) : s.mustFlush site = false := by
  have calm : s.records.countP Record.conflict = 0 := by
    rw [List.countP_eq_zero]
    intro r member
    rw [(lawful.records r member).calm]
    exact Bool.false_ne_true
  have isSound := (lawful.mostlyGenuine ofView below).isSound site.me lawful.member rfl
  have notCorrupt : s.corrupt site = false := by
    rw [Bool.eq_false_iff, ne_eq, corrupt_iff_of_sound isSound, not_not]
    exact (lawful.recordOf site.me).vouched
  simp [mustFlush, conflict, calm, notCorrupt, Cluster.establishQuorum]

/-! ### Moving requests on -/

/-- The primary makes the line longer by the requests it assigns. -/
theorem viewLine_assignments (configured : site.cluster.Configured)
    (ofView : ViewLine view submitted line) (lawful : s.Lawful site line submitted)
    (atEnd : (s.own site).seq = line.length) :
    ViewLine view submitted (line ++ s.assignments site view) := by
  have own := lawful.recordOf site.me
  have reached : (s.own site).lastExec ≤ line.length :=
    (own.genuine.upTo_lastExec configured.logCapacity_pos ofView.numbered).1
  have start : max (s.own site).seq (s.own site).lastExec = line.length := by omega
  have counting := map_seq_assignments site view s
  rw [start] at counting
  have room : (s.assignments site view).length ≤ Json.maxUnsigned - line.length := by
    have few := length_assignments_le site view s
    rw [start] at few
    have : windowEnd site (s.own site).lastExec ≤ Json.maxUnsigned := Nat.min_le_right ..
    omega
  have short := ofView.short
  exact
    { numbered := ofView.numbered.append counting
      inView := by
        intro a member
        cases List.mem_append.mp member with
        | inl old => exact ofView.inView a old
        | inr new => exact view_of_mem_numberBehind new
      asked := by
        intro a member
        cases List.mem_append.mp member with
        | inl old => exact ofView.asked a old
        | inr new =>
            have pending := (map_request_assignments ..).subset (List.mem_map_of_mem new)
            exact own.asked _ (List.mem_filter.mp pending).1
      short := by
        rw [List.length_append]
        omega }

theorem assign (lawful : s.Lawful site line submitted) :
    (s.assign site view).Lawful site (line ++ s.assignments site view) submitted := by
  rw [assign_eq lawful.inTable]
  apply (lawful.mono _ fun _ h => h).updateOwn
  intro own
  have queued : (((s.own site).queue ++ (s.assignments site view).map preparedEntry).map
      QueueEntry.request) = (s.own site).queued ++ s.assignments site view := by
    rw [List.map_append, List.map_map]
    simp [Record.queued, Function.comp_def, preparedEntry]
  refine own.of_queue rfl rfl rfl own.calm ?_ ?_
  · intro a inQueue
    rw [Record.queued, queued] at inQueue
    cases List.mem_append.mp inQueue with
    | inl old => exact own.mentions a (.inl old)
    | inr new => exact List.mem_append_right _ new
  · have given := map_request_assignments site view s
    rw [Record.queued, queued, List.map_append]
    refine List.pairwise_append.mpr ⟨own.queueDistinct,
      own.pendingDistinct.sublist (given.trans List.filter_sublist), ?_⟩
    intro p inQueue q new
    have unqueued := (List.mem_filter.mp (given.subset new)).2
    simp only [Bool.and_eq_true, Bool.not_eq_true', Record.isQueued, List.any_eq_false,
      Bool.not_eq_true] at unqueued
    obtain ⟨a, shown, rfl⟩ := List.mem_map.mp inQueue
    obtain ⟨e, member, rfl⟩ := List.mem_map.mp shown
    exact unqueued.1.1 e member

theorem acceptProposals (lawful : s.Lawful site line submitted) (view : View)
    (primary : NodeId) : (s.acceptProposals site view primary).Lawful site line submitted := by
  have proposed := (lawful.recordOf primary).mentions
  unfold Agreement.acceptProposals
  split
  · exact lawful
  · apply lawful.updateOwn
    intro own
    refine acceptProposals_induction (P := fun r => r.Lawful site.cluster line submitted) ?_ _ own
    intro r a fromPrimary ofR
    unfold acceptOne
    split
    · next acceptable =>
        have queued : (r.queue ++ [preparedEntry a]).map QueueEntry.request = r.queued ++ [a] :=
          List.map_append
        obtain ⟨_, _, fresh, _⟩ := acceptsProposal_iff.mp acceptable
        refine ofR.of_queue rfl rfl rfl ofR.calm ?_ ?_
        · intro b inQueue
          rw [Record.queued] at inQueue
          cases List.mem_append.mp (queued ▸ inQueue) with
          | inl old => exact ofR.mentions b (.inl old)
          | inr new =>
              rw [List.mem_singleton.mp new]
              exact proposed a (.inl fromPrimary)
        · show DistinctOrigins (((r.queue ++ [preparedEntry a]).map QueueEntry.request).map _)
          rw [queued, List.map_append]
          apply ofR.queueDistinct.append_singleton
          intro p inQueue
          obtain ⟨b, shown, rfl⟩ := List.mem_map.mp inQueue
          obtain ⟨e, member, rfl⟩ := List.mem_map.mp shown
          exact (fresh e member).1
    · exact ofR

theorem prepareToCommit (lawful : s.Lawful site line submitted) :
    (s.prepareToCommit site).Lawful site line submitted :=
  lawful.updateOwn fun own => own.of_eq rfl rfl (map_request_status ..) rfl own.calm

/-- What is executed is the next request of the line. -/
theorem commit (configured : site.cluster.Configured) (ofView : ViewLine view submitted line)
    (lawful : s.Lawful site line submitted) : (s.commit site).1.Lawful site line submitted := by
  refine commitUpTo_induction (P := fun t => t.Lawful site line submitted) ?_ _ lawful
  intro t a ofT next quorum
  obtain ⟨queued, number, _⟩ := of_nextCommitted next
  apply ofT.updateOwn
  intro own
  exact own.apply configured.logCapacity_pos ofView.numbered (own.mentions a (.inl queued)) number
    quorum

theorem tidy (lawful : s.Lawful site line submitted) (view : View) :
    (s.tidy site view).Lawful site line submitted := by
  unfold Agreement.tidy
  have remembered := lawful.updateOwn (f := fun r =>
      { r with
        log := r.log.map fun e =>
          { e with executedBy := e.executedBy.union (s.committedBy site e.request) } }) fun own =>
    { genuine := own.genuine.congr (map_request_executedBy ..) rfl
      vouched := by
        intro e member
        obtain ⟨old, inLog, rfl⟩ := List.mem_map.mp member
        exact Nat.le_trans (own.vouched old inLog) (NodeSet.card_le_card_union ..)
      mentions := own.mentions.of_eq rfl (map_request_executedBy ..)
      queueDistinct := own.queueDistinct
      pendingDistinct := own.pendingDistinct
      asked := own.asked
      calm := own.calm }
  refine remembered.updateOwn fun own => .pruneExecuted ?_
  split
  · exact own
  · refine own.of_queue rfl rfl rfl own.calm ?_
      (own.queueDistinct.sublist ((List.filter_sublist.map _).map _))
    intro a queued
    exact own.mentions a (.inl (List.map_subset _ List.filter_sublist.subset queued))

/-- From a lawful table with small numbers a round that need not flush comes to a table that is
lawful for the line it has made longer. -/
theorem proceed (configured : site.cluster.Configured)
    (enough : 3 * site.cluster.faults < site.cluster.size) (ofView : ViewLine view submitted line)
    (below : s.Below site) (lawful : s.Lawful site line submitted) (answers : Answers)
    {primary : NodeId}
    (atEnd : primary = site.me → (s.own site).viewChanged = false →
      (s.own site).seq = line.length) :
    ViewLine view submitted (line ++ s.proceedAssigns site answers view primary) ∧
      (s.proceed site answers view primary).1.Lawful site
        (line ++ s.proceedAssigns site answers view primary) submitted := by
  have found := lawful.findCommonHistory configured enough ofView below
  have stance : ((s.findCommonHistory site).own site).stance = (s.own site).stance :=
    stance_own_findCommonHistory
  simp only [Record.stance, Prod.mk.injEq] at stance
  obtain ⟨_, sameWait, sameSeq⟩ := stance
  unfold Agreement.proceed proceedAssigns
  dsimp only
  cases waiting : ((s.findCommonHistory site).own site).viewChanged with
  | true =>
      simp only [Bool.not_true, Bool.false_and, Bool.false_eq_true, if_false, if_true,
        List.append_nil]
      exact ⟨ofView, found.tidy view⟩
  | false =>
      simp only [Bool.false_eq_true, if_false, Bool.not_false, Bool.true_and]
      unfold agree
      dsimp only
      by_cases assigning : (decide (primary = site.me) && mayAssign site answers) = true
      · simp only [if_pos assigning]
        rw [Bool.and_eq_true, decide_eq_true_eq] at assigning
        have end' := sameSeq.trans (atEnd assigning.1 (sameWait ▸ waiting))
        have longer := viewLine_assignments configured ofView found end'
        exact ⟨longer, ((found.assign.acceptProposals view primary).prepareToCommit.commit
          configured longer).tidy view⟩
      · simp only [if_neg assigning, List.append_nil]
        exact ⟨ofView, ((found.acceptProposals view primary).prepareToCommit.commit
          configured ofView).tidy view⟩

end Lawful

end Agreement

end QuorumList
