import QuorumList.Proofs.Holes
import QuorumList.Proofs.Stages

/-!
Sequencing.

The primary of a view numbers requests behind the last number that it gave out, and behind whatever
it has executed by then.  What it has executed may jump when it adopts a common history, but only
forwards past the numbers that it still gives out; and it falls back to what it has executed only
when it takes the view over.  A replica that is told one view of its own, or none, and that does not
flush takes this view over once at most.  So the numbers that it gives out rise throughout, and the
last one that it remembers never falls.

Numbers are 64-bit numbers.  As long as others report such numbers only, a replica has only such
numbers in its table, at every stage of every round, and the successors that it takes on the way
are those of numbers below the largest one.  So sums that would start over at zero make no
difference.
-/
namespace QuorumList

/-- The successor of a 64-bit number, which is zero for the largest one. -/
def wrappingSucc (n : Nat) : Nat :=
  (UInt64.ofNat n + 1).toNat

theorem wrappingSucc_of_lt {n : Nat} (below : n < Json.maxUnsigned) : wrappingSucc n = n + 1 := by
  rw [Json.maxUnsigned] at below
  simp only [wrappingSucc, UInt64.toNat_add, UInt64.toNat_ofNat', UInt64.toNat_one]
  omega

namespace Record

variable {r : Record}

/-- All numbers of the record are 64-bit numbers. -/
def Unsigned (r : Record) : Prop :=
  r.seqsBelow (Json.maxUnsigned + 1) = true

instance : DecidablePred Unsigned :=
  fun r => inferInstanceAs (Decidable (r.seqsBelow (Json.maxUnsigned + 1) = true))

theorem unsigned_iff :
    r.Unsigned ↔ r.seq ≤ Json.maxUnsigned ∧ r.Mentions fun a => a.seq ≤ Json.maxUnsigned := by
  simp only [Unsigned, seqsBelow_iff, Nat.lt_succ_iff]

namespace Unsigned

theorem seq (unsigned : r.Unsigned) : r.seq ≤ Json.maxUnsigned :=
  (unsigned_iff.mp unsigned).1

theorem mentions (unsigned : r.Unsigned) : r.Mentions fun a => a.seq ≤ Json.maxUnsigned :=
  (unsigned_iff.mp unsigned).2

theorem lastExec (unsigned : r.Unsigned) : r.lastExec ≤ Json.maxUnsigned :=
  largestSeq_le fun a logged => unsigned.mentions a (.inr logged)

theorem new (clients : Nat) : (Record.new clients).Unsigned :=
  unsigned_iff.mpr ⟨Nat.zero_le _, .new clients⟩

theorem blank : Record.blank.Unsigned :=
  unsigned_iff.mpr ⟨Nat.zero_le _, .blank⟩

theorem sanitize (unsigned : r.Unsigned) (clients pendingCapacity logCapacity : Nat) :
    (r.sanitize clients pendingCapacity logCapacity).Unsigned :=
  unsigned_iff.mpr ⟨unsigned.seq, unsigned.mentions.sanitize _ _ _⟩

end Unsigned

end Record

/-- Some request does not follow its neighbour by exactly one, as 64-bit numbers tell. -/
def wrappingGap : List AssignedRequest → Bool
  | a :: b :: rest =>
      (a.seq = Json.maxUnsigned || wrappingSucc a.seq ≠ b.seq) || wrappingGap (b :: rest)
  | _ => false

theorem wrappingGap_eq {requests : List AssignedRequest}
    (unsigned : ∀ a ∈ requests, a.seq ≤ Json.maxUnsigned) :
    wrappingGap requests = Record.anyGap requests := by
  induction requests with
  | nil => rfl
  | cons a rest ih =>
      cases rest with
      | nil => rfl
      | cons b rest =>
          have later := ih fun c member => unsigned c (List.mem_cons_of_mem _ member)
          unfold wrappingGap Record.anyGap
          rw [later]
          by_cases largest : a.seq = Json.maxUnsigned
          · simp [largest]
          · have below := Nat.lt_of_le_of_ne (unsigned a List.mem_cons_self) largest
            rw [wrappingSucc_of_lt below]

namespace Agreement

variable {site : Site} {s t : Agreement} {answers : Answers} {primary : NodeId} {copying : Bool}

/-- Numbers given out with 64-bit successors. -/
def wrappingAssign (view : View) (limit : Nat) : Nat → List ClientRequest → List QueueEntry × Nat
  | seq, [] => ([], seq)
  | seq, q :: rest =>
      if limit ≤ seq then ([], seq)
      else
        let entry : QueueEntry :=
          { request := { request := q, view := view, seq := wrappingSucc seq }
            status := .prepared }
        let (entries, last) := wrappingAssign view limit (wrappingSucc seq) rest
        (entry :: entries, last)

/-- Numbers are given out below a limit only, and so no successor starts over. -/
theorem wrappingAssign_eq {limit : Nat} (bounded : limit ≤ Json.maxUnsigned) (view : View)
    (seq : Nat) (requests : List ClientRequest) :
    wrappingAssign view limit seq requests = assignBehind view limit seq requests := by
  induction requests generalizing seq with
  | nil => rfl
  | cons q rest ih =>
      unfold wrappingAssign assignBehind
      split
      · rfl
      · next room =>
          rw [wrappingSucc_of_lt (by omega), ih]

/-- The committed request that comes next, as 64-bit numbers tell. -/
def wrappingNext? (r : Record) : Option AssignedRequest :=
  if r.lastExec = Json.maxUnsigned then none
  else
    (r.queue.find? fun e =>
      e.status.has .commit && e.request.seq = wrappingSucc r.lastExec).map QueueEntry.request

theorem wrappingNext?_eq {r : Record} (unsigned : r.Unsigned) :
    wrappingNext? r = nextCommitted? r := by
  unfold wrappingNext? nextCommitted?
  split
  · rfl
  · next room => rw [wrappingSucc_of_lt (Nat.lt_of_le_of_ne unsigned.lastExec room)]

/-- Nothing that a replica works out from this table with 64-bit numbers would be different with
numbers without a bound: which numbers it gives out, in which logs it finds a gap, and which request
it executes next. -/
structure Exact (site : Site) (s : Agreement) : Prop where
  assigning : ∀ view requests,
    wrappingAssign view (windowEnd site (s.own site).lastExec)
        (max (s.own site).seq (s.own site).lastExec) requests =
      assignBehind view (windowEnd site (s.own site).lastExec)
        (max (s.own site).seq (s.own site).lastExec) requests
  gaps : ∀ k, wrappingGap (s.recordOf k).logged = (s.recordOf k).logGaps
  executing : wrappingNext? (s.own site) = nextCommitted? (s.own site)

/-! ### 64-bit numbers throughout -/

/-- All numbers of the table are 64-bit numbers. -/
def Unsigned (s : Agreement) : Prop :=
  ∀ k, (s.recordOf k).Unsigned

namespace Unsigned

theorem exact (unsigned : s.Unsigned) : s.Exact site where
  assigning view requests := wrappingAssign_eq (Nat.min_le_right _ _) view _ requests
  gaps k := wrappingGap_eq fun a logged => (unsigned k).mentions a (.inr logged)
  executing := wrappingNext?_eq (unsigned site.me)

theorem table (unsigned : s.Unsigned) : s.Mentions fun a => a.seq ≤ Json.maxUnsigned := by
  intro r member
  obtain ⟨k, inTable, rfl⟩ := List.mem_iff_getElem.mp member
  have held := (unsigned k).mentions
  rwa [recordOf, List.getD_eq_getElem?_getD, List.getElem?_eq_getElem inTable] at held

theorem new (site : Site) : (Agreement.new site).Unsigned := by
  intro k
  by_cases inTable : k < (Agreement.new site).records.length
  · rw [List.eq_of_mem_replicate (recordOf_mem inTable)]
    exact .new _
  · rw [recordOf_eq_blank (Nat.le_of_not_lt inTable)]
    exact .blank

/-- Only the own record has changed. -/
theorem of_own (unsigned : s.Unsigned)
    (others : ∀ k, k ≠ site.me → t.recordOf k = s.recordOf k) (own : (t.own site).Unsigned) :
    t.Unsigned := by
  intro k
  by_cases isMe : k = site.me
  · exact isMe ▸ own
  · rw [others k isMe]
    exact unsigned k

theorem own_assign (unsigned : s.Unsigned) (inTable : site.me < s.records.length) (view : View) :
    ((s.assign site view).own site).Unsigned := by
  have seq := (unsigned site.me).seq
  have lastExec := (unsigned site.me).lastExec
  have window : windowEnd site (s.own site).lastExec ≤ Json.maxUnsigned := Nat.min_le_right ..
  have last : max (s.own site).seq (s.own site).lastExec + (s.assignments site view).length ≤
      Json.maxUnsigned := by
    have few := length_assignments_le site view s
    change (s.own site).seq ≤ _ at seq
    change (s.own site).lastExec ≤ _ at lastExec
    omega
  have given : (s.assign site view).Mentions fun a => a.seq ≤ Json.maxUnsigned :=
    unsigned.table.assign fun a numbered => Nat.le_trans (mem_assignments numbered).2 last
  refine Record.unsigned_iff.mpr ⟨?_, given.recordOf site.me⟩
  rw [assign_eq inTable, own_updateOwn inTable]
  exact last

/-- Every stage of a round keeps to 64-bit numbers. -/
theorem stage (unsigned : s.Unsigned) (inTable : site.me < s.records.length)
    (stage : Stage site primary copying s t) : t.Unsigned := by
  suffices changed : (t.own site).Unsigned from
    unsigned.of_own (fun k other => stage.others other) changed
  have own : (s.own site).Unsigned := unsigned site.me
  have mentions := own.mentions
  have table := unsigned.table
  cases stage with
  | notice | lead | flag =>
      rw [own_updateOwn inTable]
      exact Record.unsigned_iff.mpr ⟨own.seq, mentions.of_eq rfl rfl⟩
  | renew =>
      rw [renewRequests, own_updateOwn inTable]
      exact Record.unsigned_iff.mpr
        ⟨own.lastExec, mentions.of_subset (by simp [Record.queued]) fun _ logged => logged⟩
  | adopt =>
      rw [own_updateOwn inTable]
      exact Record.unsigned_iff.mpr
        ⟨own.seq, .pruneExecuted (mentions.of_log (table.recordOf _) rfl rfl)⟩
  | copy =>
      rw [own_updateOwn inTable]
      exact Record.unsigned_iff.mpr
        ⟨(unsigned primary).seq, (table.recordOf primary).of_eq rfl rfl⟩
  | assign => exact unsigned.own_assign inTable _
  | @accept a another proposed =>
      rw [own_updateOwn inTable]
      refine Record.unsigned_iff.mpr ⟨own.seq, ?_⟩
      rintro b (queued | logged)
      · rw [Record.queued, List.map_append, List.mem_append] at queued
        cases queued with
        | inl old => exact mentions b (.inl old)
        | inr new =>
            obtain rfl : b = a := by simpa [preparedEntry] using new
            exact table.recordOf primary b (.inl proposed)
      · exact mentions b (.inr logged)
  | prepare =>
      refine Record.unsigned_iff.mpr ⟨?_, table.prepareToCommit.recordOf site.me⟩
      rw [prepareToCommit, own_updateOwn inTable]
      exact own.seq
  | execute next =>
      rw [own_updateOwn inTable]
      exact Record.unsigned_iff.mpr
        ⟨own.seq, mentions.apply (mentions _ (.inl (of_nextCommitted next).1)) _ _⟩
  | tidy =>
      refine Record.unsigned_iff.mpr ⟨?_, (table.tidy (.id primary)).recordOf site.me⟩
      have kept : ((s.tidy site (.id primary)).own site).seq = (s.own site).seq :=
        congrArg (fun stance => stance.2.2) (stance_own_tidy (.id primary))
      exact (Nat.le_of_eq kept).trans own.seq

theorem staged (unsigned : s.Unsigned) (inTable : site.me < s.records.length)
    (staged : Staged site primary copying s t) : t.Unsigned :=
  staged.keeps unsigned fun u _ path last unsigned =>
    unsigned.stage (by rwa [path.length]) last

theorem honourFlush (unsigned : s.Unsigned) (inTable : site.me < s.records.length) :
    (s.honourFlush site).Unsigned := by
  intro k
  rcases recordOf_honourFlush inTable k with same | ⟨-, fresh⟩
  · rw [same]
    exact unsigned k
  · rw [fresh]
    exact .new _

theorem round (unsigned : s.Unsigned) (inTable : site.me < s.records.length)
    (answers : Answers) : (s.round site answers).state.Unsigned := by
  have honoured := unsigned.honourFlush inTable
  rcases round_stages inTable answers with ⟨-, fresh⟩ | ⟨-, ⟨-, same⟩ | ⟨primary, -, staged⟩⟩
  · refine unsigned.of_own
      (fun k (other : k ≠ site.me) => recordOf_round_of_ne other answers) ?_
    rw [fresh]
    exact .new _
  · rw [same]
    exact honoured
  · exact honoured.staged (by rwa [length_records_honourFlush]) staged

theorem receive (unsigned : s.Unsigned) {r : Record} (ofR : r.Unsigned) (sender : NodeId) :
    (s.receive site sender r).Unsigned := by
  unfold Agreement.receive
  split
  · intro k
    simp only [recordOf, List.getD_eq_getElem?_getD, List.getElem?_set]
    split
    · split
      · exact ofR.sanitize _ _ _
      · exact .blank
    · have held := unsigned k
      rwa [recordOf, List.getD_eq_getElem?_getD] at held
  · exact unsigned

theorem move (unsigned : s.Unsigned) (inTable : site.me < s.records.length) {move : Move}
    (reported : ∀ sender r, move = .receive sender r → r.Unsigned) :
    (s.move site move).Unsigned := by
  cases move with
  | submit q =>
      rw [Agreement.move]
      rcases submit_eq_or site s q with same | ⟨_, buffered⟩
      · rw [same]
        exact unsigned
      · rw [buffered]
        refine unsigned.of_own
          (fun k (other : k ≠ site.me) => recordOf_updateOwn_of_ne other ..) ?_
        rw [own_updateOwn inTable]
        have own : (s.own site).Unsigned := unsigned site.me
        exact Record.unsigned_iff.mpr ⟨own.seq, own.mentions.of_eq rfl rfl⟩
  | receive sender r => exact unsigned.receive (reported sender r rfl) sender
  | ask function =>
      rw [Agreement.move]
      split
      · next answered =>
          intro k
          rw [recordOf, records_call answered]
          exact unsigned k
      · exact unsigned
  | round answers => exact unsigned.round inTable answers

end Unsigned

theorem unsigned_after (member : site.me < site.cluster.size) {moves : List Move}
    (reported : ∀ sender r, .receive sender r ∈ moves → r.Unsigned) :
    (after site moves).Unsigned := by
  induction moves using List.reverseRecOn with
  | nil => exact .new site
  | append_singleton moves move ih =>
      have before := ih fun sender r inMoves => reported sender r (List.mem_append_left _ inMoves)
      rw [after_append]
      refine before.move (by rwa [length_records_after]) ?_
      rintro sender r rfl
      exact reported sender r (by simp)

/-! ### A round of a primary -/

/-- What follows in a round on entering the view makes no replica lead it, and none stop. -/
theorem leading_proceed_iff {view : View} (inTable : site.me < s.records.length) :
    (s.proceed site answers view primary).1.Leading site ↔ s.Leading site := by
  have stays : ((s.proceed site answers view primary).1.own site).view = (s.own site).view ∧
      ((s.proceed site answers view primary).1.own site).viewChanged =
        (s.own site).viewChanged := by
    rcases stance_own_proceed answers view primary inTable with
      ⟨-, stance⟩ | ⟨-, -, -, stance⟩
    · simp only [Record.stance, Prod.mk.injEq] at stance
      exact ⟨stance.1, stance.2.1⟩
    · simp only [Record.stance, Prod.mk.injEq] at stance
      exact ⟨stance.1, stance.2.1⟩
  rw [Leading, Leading, stays.1, stays.2]

section Round

variable (keeps : answers.viewOf site.me = .tee ∨ answers.viewOf site.me = .id site.me)
  (noFlush : .localFlush ∉ (s.round site answers).events)
include keeps noFlush

/-- A round that does not flush does nothing, or it enters the view and goes on. -/
theorem state_round_of_noFlush :
    s.flush = false ∧
      (answers.viewOf site.me = .tee ∧ (s.round site answers).state = s ∨
        answers.viewOf site.me = .id site.me ∧
          (s.round site answers).state =
            ((s.enterView site (.id site.me) site.me).proceed site answers (.id site.me)
              site.me).1) := by
  rw [localFlush_mem_events_round, not_or] at noFlush
  obtain ⟨unasked, calm⟩ := noFlush
  have quiet : s.flush = false := Bool.eq_false_iff.mpr unasked
  have honoured : s.honourFlush site = s := by
    rw [honourFlush, quiet]
    rfl
  rw [honoured] at calm
  refine ⟨quiet, keeps.imp (fun unseen => ⟨unseen, ?_⟩) fun seen => ⟨seen, ?_⟩⟩
  · rw [state_round, unseen]
    exact honoured
  · refine state_round_of_calm seen quiet (Bool.eq_false_iff.mpr fun must => ?_)
    exact calm ⟨site.me, seen, must⟩

variable (inTable : site.me < s.records.length)
include inTable

/-- A replica that leads its view goes on leading it. -/
theorem Leading.round (leading : s.Leading site) : (s.round site answers).state.Leading site := by
  obtain ⟨-, ⟨-, same⟩ | ⟨-, goesOn⟩⟩ := state_round_of_noFlush keeps noFlush
  · rw [same]
    exact leading
  · rw [goesOn, enterView_of_settled leading.1 leading.2, leading_proceed_iff inTable]
    exact leading

omit keeps noFlush in
/-- A primary that enters its view and still waits there keeps the last number it gave out. -/
theorem seq_own_enterView_of_waiting
    (waits : ((s.enterView site (.id site.me) site.me).own site).viewChanged = true) :
    ((s.enterView site (.id site.me) site.me).own site).seq = (s.own site).seq := by
  have tracked : ((s.trackView site (.id site.me)).own site).seq = (s.own site).seq := by
    unfold trackView
    split
    · rfl
    · exact apply_own_updateOwn Record.seq (by intro r; rfl)
  revert waits
  unfold enterView changeView leadView
  dsimp only
  rw [if_pos rfl]
  split
  · split
    · intro waits
      rw [own_updateOwn (by rwa [length_records_findCommonHistory, renewRequests,
        length_records_updateOwn, length_records_trackView])] at waits
      contradiction
    · exact fun _ => tracked
  · exact fun _ => tracked

/-- A replica that does not lead after a round has given out no number in it. -/
theorem round_of_not_leading (waits : ¬(s.round site answers).state.Leading site) :
    s.roundAssigns site answers = [] ∧
      ((s.round site answers).state.own site).seq = (s.own site).seq := by
  constructor
  · exact List.eq_nil_iff_forall_not_mem.mpr fun a given =>
      waits (leading_of_roundAssigns inTable given)
  · obtain ⟨-, ⟨-, same⟩ | ⟨-, goesOn⟩⟩ := state_round_of_noFlush keeps noFlush
    · rw [same]
    · have inEntered : site.me < (s.enterView site (.id site.me) site.me).records.length := by
        rwa [length_records_enterView]
      rw [goesOn, leading_proceed_iff inEntered] at waits
      rw [goesOn]
      have view := view_own_enterView inTable (.id site.me) site.me
      rcases stance_own_proceed answers (.id site.me) site.me inEntered with
        ⟨-, stance⟩ | ⟨-, settled, -, -⟩
      · have waiting : ((s.enterView site (.id site.me) site.me).own site).viewChanged = true :=
          Bool.of_not_eq_false fun settled => waits ⟨view, settled⟩
        simp only [Record.stance, Prod.mk.injEq] at stance
        rw [stance.2.2, seq_own_enterView_of_waiting inTable waiting]
      · exact absurd ⟨view, settled⟩ waits

end Round

/-! ### The numbers of a run -/

/-- The requests that a move assigns. -/
def assignedBy (site : Site) (s : Agreement) : Move → List AssignedRequest
  | .round answers => s.roundAssigns site answers
  | .submit _ => []
  | .receive .. => []
  | .ask _ => []

/-- The requests that are assigned in these moves, in the order in which they are. -/
def assignedIn (site : Site) : Agreement → List Move → List AssignedRequest
  | _, [] => []
  | s, move :: rest => s.assignedBy site move ++ assignedIn site (s.move site move) rest

/-- A replica has given out rising numbers and remembers the last one, and it has given out none
before it leads. -/
structure Sequenced (site : Site) (given : List AssignedRequest) (s : Agreement) : Prop where
  inTable : site.me < s.records.length
  rising : given.Pairwise fun a b => a.seq < b.seq
  reached : ∀ a ∈ given, a.seq ≤ (s.own site).seq
  waiting : ¬s.Leading site → given = [] ∧ (s.own site).seq = 0

namespace Sequenced

variable {given : List AssignedRequest}

theorem new (member : site.me < site.cluster.size) : Sequenced site [] (Agreement.new site) where
  inTable := by simpa [Agreement.new] using member
  rising := .nil
  reached := by simp
  waiting _ := by
    have inTable : site.me < (Agreement.new site).records.length := by
      simpa [Agreement.new] using member
    rw [own, List.eq_of_mem_replicate (recordOf_mem inTable)]
    exact ⟨rfl, rfl⟩

theorem round (sequenced : Sequenced site given s)
    (keeps : answers.viewOf site.me = .tee ∨ answers.viewOf site.me = .id site.me)
    (noFlush : .localFlush ∉ (s.round site answers).events) :
    Sequenced site (given ++ s.roundAssigns site answers) (s.round site answers).state ∧
      (s.own site).seq ≤ ((s.round site answers).state.own site).seq := by
  have inTable := sequenced.inTable
  have inAfter : site.me < (s.round site answers).state.records.length := by
    rwa [length_records_round]
  by_cases leads : (s.round site answers).state.Leading site
  · obtain ⟨reached, begins⟩ := leading_round inTable leads
    -- Either the replica takes the view over, and has given out nothing yet, or it goes on.
    have behind : (s.own site).seq ≤ ((s.round site answers).state.own site).seq ∧
        ∀ a ∈ given, ∀ b ∈ s.roundAssigns site answers, a.seq < b.seq := by
      rcases begins with ⟨takesOver, -, -⟩ | ⟨-, -, noLess, beyond⟩
      · have waited : ¬s.Leading site := by
          intro leading
          have quiet := (state_round_of_noFlush keeps noFlush).1
          rw [roundLeads_eq_false quiet leading keeps] at takesOver
          contradiction
        obtain ⟨nothing, zero⟩ := sequenced.waiting waited
        exact ⟨zero ▸ Nat.zero_le _, by simp [nothing]⟩
      · exact ⟨noLess, fun a old b new =>
          Nat.lt_of_le_of_lt (sequenced.reached a old) (beyond b new)⟩
    refine ⟨⟨inAfter, ?_, fun a member => ?_, fun waits => absurd leads waits⟩, behind.1⟩
    · exact List.pairwise_append.mpr
        ⟨sequenced.rising, pairwise_roundAssigns .., behind.2⟩
    · rcases List.mem_append.mp member with old | new
      · exact Nat.le_trans (sequenced.reached a old) behind.1
      · exact reached a new
  · have waited : ¬s.Leading site := fun leading =>
      leads (leading.round keeps noFlush inTable)
    obtain ⟨nothing, zero⟩ := sequenced.waiting waited
    obtain ⟨none, same⟩ := round_of_not_leading keeps noFlush inTable leads
    rw [nothing, none, same]
    exact ⟨⟨inAfter, .nil, by simp, fun _ => ⟨rfl, same.trans zero⟩⟩, Nat.le_refl _⟩

theorem move (sequenced : Sequenced site given s) {move : Move}
    (keeps : move.KeepsTo site site.me) (noFlush : .localFlush ∉ s.eventsOf site move) :
    Sequenced site (given ++ s.assignedBy site move) (s.move site move) ∧
      (s.own site).seq ≤ ((s.move site move).own site).seq := by
  by_cases isRound : ∃ answers, move = .round answers
  · obtain ⟨answers, rfl⟩ := isRound
    exact sequenced.round keeps noFlush
  · have between : ∀ answers, move ≠ .round answers :=
      fun answers isIt => isRound ⟨answers, isIt⟩
    have stance := (own_move site s between).2
    have nothing : s.assignedBy site move = [] := by
      cases move with
      | round answers => exact absurd rfl (between answers)
      | submit | receive | ask => rfl
    have seq : ((s.move site move).own site).seq = (s.own site).seq :=
      congrArg (fun stance => stance.2.2) stance
    rw [nothing, List.append_nil, seq]
    refine ⟨⟨?_, sequenced.rising, ?_, fun waits => ?_⟩, Nat.le_refl _⟩
    · rw [length_records_move]
      exact sequenced.inTable
    · rw [seq]
      exact sequenced.reached
    · rw [seq]
      exact sequenced.waiting fun leading => waits (leading.of_stance_eq stance.symm)

theorem run (sequenced : Sequenced site given s) {moves : List Move}
    (keeps : ∀ move ∈ moves, move.KeepsTo site site.me) (unflushed : s.Unflushed site moves) :
    Sequenced site (given ++ assignedIn site s moves) (moves.foldl (Agreement.move site) s) ∧
      (s.own site).seq ≤ ((moves.foldl (Agreement.move site) s).own site).seq := by
  induction moves generalizing s given with
  | nil =>
      rw [assignedIn, List.append_nil]
      exact ⟨sequenced, Nat.le_refl _⟩
  | cons move rest ih =>
      obtain ⟨noFlush, calm⟩ := unflushed
      obtain ⟨next, noLess⟩ := sequenced.move (keeps move List.mem_cons_self) noFlush
      obtain ⟨final, noLessLater⟩ :=
        ih next (fun m inRest => keeps m (List.mem_cons_of_mem _ inRest)) calm
      rw [assignedIn, ← List.append_assoc]
      exact ⟨final, Nat.le_trans noLess noLessLater⟩

end Sequenced

/-! ### The window -/

/-- The table from which a round assigns requests in the own view. -/
def assigningTable (site : Site) (s : Agreement) : Agreement :=
  ((s.honourFlush site).enterView site (.id site.me) site.me).findCommonHistory site

theorem assignments_of_mem_roundAssigns {a : AssignedRequest}
    (given : a ∈ s.roundAssigns site answers) :
    a ∈ (s.assigningTable site).assignments site (.id site.me) := by
  unfold roundAssigns proceedAssigns at given
  split at given
  · simp at given
  · dsimp only at given
    split at given
    · simp at given
    · split at given
      · next assigning =>
          simp only [Bool.and_eq_true, decide_eq_true_eq] at assigning
          obtain ⟨-, rfl, -⟩ := assigning
          exact given
      · simp at given

theorem window_of_mem_assignments {view : View} {a : AssignedRequest}
    (numbered : a ∈ s.assignments site view) :
    (s.own site).lastExec < a.seq ∧ a.seq ≤ windowEnd site (s.own site).lastExec := by
  have few := length_assignments_le site view s
  obtain ⟨behind, upTo⟩ := mem_assignments numbered
  omega

/-- A replica that is told its own view or none, and that does not flush, gives out rising numbers.
Each lies behind what it has executed when it gives the number out, and within the window from
there; and the last number that it remembers never falls.  If others report 64-bit numbers only,
then there are no others in its table at any stage of any round, and 64-bit sums are exact. -/
theorem primary_sequences {moves : List Move} (member : site.me < site.cluster.size)
    (keeps : ∀ move ∈ moves, move.KeepsTo site site.me)
    (unflushed : (new site).Unflushed site moves)
    (reported : ∀ sender r, .receive sender r ∈ moves → r.Unsigned) :
    (assignedIn site (new site) moves).Pairwise (fun a b => a.seq < b.seq) ∧
      (∀ early between late, moves = early ++ between ++ late →
        ((after site early).own site).seq ≤ ((after site (early ++ between)).own site).seq) ∧
      ∀ early answers late, moves = early ++ .round answers :: late →
        (∀ a ∈ (after site early).roundAssigns site answers,
          let executed := (((after site early).assigningTable site).own site).lastExec
          executed < a.seq ∧ a.seq ≤ Json.maxUnsigned ∧
            a.seq ≤ executed + 3 * site.cluster.sigma * site.cluster.clients) ∧
        ∀ copying t,
          Staged site site.me copying ((after site early).honourFlush site) t →
            t.Unsigned ∧ t.Exact site := by
  refine ⟨?_, ?_, ?_⟩
  · obtain ⟨sequenced, -⟩ := (Sequenced.new member).run keeps unflushed
    exact sequenced.rising
  · rintro early between late rfl
    rw [List.append_assoc, unflushed_append] at unflushed
    obtain ⟨calm, unflushed⟩ := unflushed
    obtain ⟨sequenced, -⟩ := (Sequenced.new member).run
      (fun move inEarly => keeps move (by simp [inEarly])) calm
    rw [after_append]
    exact (sequenced.run (fun move inBetween => keeps move (by simp [inBetween]))
      (unflushed_append.mp unflushed).1).2
  · rintro early answers late rfl
    have inTable : site.me < (after site early).records.length := by
      rwa [length_records_after]
    have unsigned := unsigned_after member fun sender r inEarly =>
      reported sender r (List.mem_append_left _ inEarly)
    constructor
    · intro a given
      have numbered := assignments_of_mem_roundAssigns given
      obtain ⟨behind, window⟩ := window_of_mem_assignments numbered
      exact ⟨behind, Nat.le_trans window (Nat.min_le_right ..),
        Nat.le_trans window (Nat.min_le_left ..)⟩
    · intro copying t staged
      have honoured := unsigned.honourFlush inTable
      have later := honoured.staged (by rwa [length_records_honourFlush]) staged
      exact ⟨later, later.exact⟩

/-- A record that waits for the primary of the first view. -/
def waitingRecord : Record :=
  { Record.new 1 with view := .id 0, viewChanged := true }

/-- A record whose history is two requests longer than that of a fresh one. -/
def advancedRecord : Record :=
  { Record.new 1 with
    state := [1, 2]
    log := [1, 2].map fun n =>
      { request := placedRequest n n, executedBy := .ofList [0, 1, 2, 3, 4, 5] }
    replies := [some { request := Ensemble.timedRequest 0 2, reply := [1, 2] }]
    seq := 2
    view := .id 0 }

/-- The first process takes over its view, and assigns a request.  It sees no view for a round.
Then it finds that four others have executed that request and another one, and assigns the next. -/
def sequencingMoves : List Move :=
  [1, 2, 3, 4].map (.receive · waitingRecord) ++
    [.submit (Ensemble.timedRequest 0 1), .round (Ensemble.reporting 0),
      .round Answers.unavailable] ++
    [1, 2, 3, 4].map (.receive · advancedRecord) ++
    [.round (Ensemble.reporting 0), .submit (Ensemble.timedRequest 0 3),
      .round (Ensemble.reporting 0)]

theorem unflushed_sequencingMoves :
    (new (sampleSite 0)).Unflushed (sampleSite 0) sequencingMoves := by
  have unflushed : decide ((new (sampleSite 0)).Unflushed (sampleSite 0) sequencingMoves) =
      true := by cbv
  exact of_decide_eq_true unflushed

/-- The numbers rise from 1 to 3: number 2 was executed in between. -/
theorem primary_skips_executed :
    (sampleSite 0).me < (sampleSite 0).cluster.size ∧
      (∀ move ∈ sequencingMoves, move.KeepsTo (sampleSite 0) 0) ∧
      (new (sampleSite 0)).Unflushed (sampleSite 0) sequencingMoves ∧
      (∀ sender r, .receive sender r ∈ sequencingMoves → r.Unsigned) ∧
      (assignedIn (sampleSite 0) (new (sampleSite 0)) sequencingMoves).map
        AssignedRequest.seq = [1, 3] ∧
      (assignedIn (sampleSite 0) (new (sampleSite 0)) sequencingMoves).Pairwise
        fun a b => a.seq < b.seq := by
  have member : (sampleSite 0).me < (sampleSite 0).cluster.size := by decide
  have keeps : ∀ move ∈ sequencingMoves, move.KeepsTo (sampleSite 0) 0 := by
    simp [sequencingMoves, Move.KeepsTo, Ensemble.reporting, Answers.unavailable]
  have reported : ∀ sender r, .receive sender r ∈ sequencingMoves → r.Unsigned := by
    intro sender r member
    have shown : waitingRecord = r ∨ advancedRecord = r := by
      simp only [sequencingMoves, List.mem_append, List.mem_map, List.mem_cons, Move.receive.injEq,
        reduceCtorEq, List.not_mem_nil, or_false] at member
      rcases member with ⟨_, -, -, same⟩ | ⟨_, -, -, same⟩
      · exact .inl same
      · exact .inr same
    rcases shown with rfl | rfl <;> decide
  exact ⟨member, keeps, unflushed_sequencingMoves, reported, by cbv,
    (primary_sequences member keeps unflushed_sequencingMoves reported).1⟩

end Agreement

end QuorumList
