import Mathlib.Data.List.Infix
import QuorumList.Proofs.Intersection
import QuorumList.Proofs.Stages

/-!
Certificates.

A replica marks a queued request as committed when an adopting quorum of its table, itself included,
carries the request as prepared: such a quorum certifies the request.  The mark stays with the
request until it leaves the queue.

There is one other way to get a marked request.  A replica that stops waiting for the primary of a
new view copies the record of the primary as it is, and with its queue the marks in it.  That they
were set on a certificate is then the word of the primary only.
-/
namespace QuorumList

namespace Record

variable {r r' : Record} {a : AssignedRequest} {status : Status}

/-- Some entry of the queue shows the request with a status. -/
def Shows (r : Record) (a : AssignedRequest) (status : Status) : Prop :=
  ∃ e ∈ r.queue, e.request = a ∧ e.status.has status = true

instance (r : Record) (a : AssignedRequest) (status : Status) : Decidable (r.Shows a status) :=
  inferInstanceAs (Decidable (∃ e ∈ r.queue, _))

theorem carries_eq_any (r : Record) (a : AssignedRequest) (status : Status) :
    r.carries a status = (r.entryOf? a).any fun e => e.status.has status := by
  unfold carries
  cases r.entryOf? a <;> rfl

/-- Every request that is marked as committed was so before, and is still prepared if it was. -/
def Inherits (r r' : Record) : Prop :=
  ∀ a, r'.Shows a .commit →
    r.Shows a .commit ∧ (r.carries a .prep = true → r'.carries a .prep = true)

namespace Inherits

theorem of_queue (same : r'.queue = r.queue) : r.Inherits r' := by
  intro a shows
  unfold Shows carries entryOf? at *
  rw [same] at shows ⊢
  exact ⟨shows, id⟩

theorem trans {r'' : Record} (first : r.Inherits r') (second : r'.Inherits r'') :
    r.Inherits r'' := by
  intro a shows
  obtain ⟨showsBefore, carries⟩ := second a shows
  exact ⟨(first a showsBefore).1, carries ∘ (first a showsBefore).2⟩

/-- All entries of one request stay, or none. -/
theorem of_filter {keep : QueueEntry → Bool} (filtered : r'.queue = r.queue.filter keep)
    (together : ∀ e o : QueueEntry, o.request = e.request → keep o = keep e) :
    r.Inherits r' := by
  rintro a ⟨e, member, rfl, marked⟩
  rw [filtered, List.mem_filter] at member
  refine ⟨⟨e, member.1, rfl, marked⟩, fun carries => ?_⟩
  have sameEntry : r'.entryOf? e.request = r.entryOf? e.request := by
    rw [entryOf?, filtered, List.find?_filter, entryOf?]
    congr 1
    funext o
    by_cases same : o.request = e.request
    · simp [same, together e o same, member.2]
    · simp [same]
  rwa [carries_eq_any, sameEntry, ← carries_eq_any]

/-- Entries that join behind the others are not marked. -/
theorem of_append {more : List QueueEntry} (joined : r'.queue = r.queue ++ more)
    (unmarked : ∀ e ∈ more, e.status.has .commit = false) : r.Inherits r' := by
  rintro a ⟨e, member, rfl, marked⟩
  rw [joined, List.mem_append] at member
  rcases member with before | new
  · refine ⟨⟨e, before, rfl, marked⟩, fun carries => ?_⟩
    rw [carries_eq_any, entryOf?, Option.any_eq_true] at carries ⊢
    obtain ⟨o, found, prepared⟩ := carries
    exact ⟨o, by rw [joined, List.find?_append, found]; rfl, prepared⟩
  · rw [unmarked e new] at marked
    contradiction

theorem of_pruned : r.Inherits r.pruneExecuted :=
  of_filter rfl fun e o same => by rw [same]

end Inherits

end Record

namespace Agreement

variable {site : Site} {s t : Agreement} {primary : NodeId} {copying : Bool} {answers : Answers}
  {a : AssignedRequest} {moves : List Move}

/-- An adopting quorum of the table carries the request as prepared. -/
def Certifies (site : Site) (a : AssignedRequest) (s : Agreement) : Prop :=
  site.cluster.adoptQuorum ≤ (s.supporters site fun r => r.carries a .prep).card

instance (site : Site) (a : AssignedRequest) (s : Agreement) : Decidable (s.Certifies site a) :=
  inferInstanceAs (Decidable (_ ≤ _))

theorem Certifies.mono (certifies : s.Certifies site a)
    (others : ∀ k, k ≠ site.me → t.recordOf k = s.recordOf k)
    (own : (s.own site).carries a .prep = true → (t.own site).carries a .prep = true) :
    t.Certifies site a := by
  unfold Certifies supporters at *
  rw [NodeSet.card_filterBelow] at *
  refine Nat.le_trans certifies (List.countP_mono_left fun k _ carries => ?_)
  by_cases isMe : k = site.me
  · subst isMe
    exact own carries
  · rwa [others k isMe]

/-- Collecting more statuses, a request stays prepared. -/
theorem carries_prep_map {r r' : Record} {f : QueueEntry → QueueEntry}
    (mapped : r'.queue = r.queue.map f) (request : ∀ e, (f e).request = e.request)
    (prepared : ∀ e, (f e).status.has .prep = e.status.has .prep) :
    r'.carries a .prep = r.carries a .prep := by
  have entry : r'.entryOf? a = (r.entryOf? a).map f := by
    rw [Record.entryOf?, mapped, List.find?_map, Record.entryOf?]
    simp only [Function.comp_def, request]
  rw [Record.carries_eq_any, Record.carries_eq_any, entry]
  cases r.entryOf? a with
  | none => rfl
  | some e => exact prepared e

/-! ### Stages -/

/-- A mark is set on a certificate. -/
theorem of_shows_prepareToCommit (inTable : site.me < s.records.length)
    (shows : ((s.prepareToCommit site).own site).Shows a .commit) :
    ((s.own site).Shows a .commit ∨ s.Certifies site a) ∧
      (s.Certifies site a → (s.prepareToCommit site).Certifies site a) := by
  have others : ∀ k, k ≠ site.me → (s.prepareToCommit site).recordOf k = s.recordOf k :=
    fun k other => recordOf_updateOwn_of_ne other ..
  rw [prepareToCommit, own_updateOwn inTable] at shows
  obtain ⟨e', member, rfl, marked⟩ := shows
  obtain ⟨e, inQueue, rfl⟩ := List.mem_map.mp member
  constructor
  · split at marked
    · next known =>
        right
        simp only [Bool.and_eq_true, List.contains_iff_mem] at known
        have listed := (List.mem_filter.mp known.2).2
        rw [if_pos (by simpa using known)]
        exact of_decide_eq_true listed
    · next unknown =>
        left
        rw [if_neg unknown]
        exact ⟨e, inQueue, rfl, marked⟩
  · refine fun certifies => certifies.mono others fun carries => ?_
    rw [prepareToCommit, own_updateOwn inTable, carries_prep_map rfl]
    · exact carries
    · intro o
      split <;> rfl
    · intro o
      split <;> rfl

theorem inherits_tidy (inTable : site.me < s.records.length) (view : View) :
    (s.own site).Inherits ((s.tidy site view).own site) := by
  unfold tidy
  dsimp only
  rw [own_updateOwn (by rwa [length_records_updateOwn]), own_updateOwn inTable]
  split
  · exact .trans (.of_queue rfl) .of_pruned
  · exact .trans (.of_filter rfl fun e o same => by rw [same]) .of_pruned

/-- What is known of a request that is marked as committed after a stage: it was marked before, and
certified after the stage if it was before; or it is certified; or the stage copied it. -/
theorem Stage.of_shows (stage : Stage site primary copying s t)
    (inTable : site.me < s.records.length) (shows : (t.own site).Shows a .commit) :
    ((s.own site).Shows a .commit ∧ (s.Certifies site a → t.Certifies site a)) ∨
      t.Certifies site a ∨
      (copying = true ∧ primary ≠ site.me ∧ (s.recordOf primary).Shows a .commit) := by
  have inherited (inherits : (s.own site).Inherits (t.own site)) :
      (s.own site).Shows a .commit ∧ (s.Certifies site a → t.Certifies site a) := by
    obtain ⟨before, carries⟩ := inherits a shows
    exact ⟨before, fun certifies => certifies.mono (fun k other => stage.others other) carries⟩
  have updated {f : Record → Record} (inherits : (s.own site).Inherits (f (s.own site))) :
      (s.own site).Inherits ((s.updateOwn site f).own site) := by
    rwa [own_updateOwn inTable]
  cases stage with
  | notice | lead | flag => exact .inl (inherited (updated (.of_queue rfl)))
  | adopt => exact .inl (inherited (updated (.trans (.of_queue rfl) .of_pruned)))
  | renew =>
      rw [renewRequests, own_updateOwn inTable] at shows
      obtain ⟨e, member, -⟩ := shows
      contradiction
  | copy copies another =>
      rw [own_updateOwn inTable] at shows
      exact .inr (.inr ⟨copies, another, shows⟩)
  | assign =>
      refine .inl (inherited ?_)
      rw [assign_eq inTable]
      refine updated (.of_append rfl fun e new => ?_)
      obtain ⟨_, -, rfl⟩ := List.mem_map.mp new
      rfl
  | accept =>
      refine .inl (inherited (updated (.of_append rfl fun e new => ?_)))
      obtain rfl := List.mem_singleton.mp new
      rfl
  | prepare =>
      obtain ⟨before | certifies, stays⟩ := of_shows_prepareToCommit inTable shows
      · exact .inl ⟨before, stays⟩
      · exact .inr (.inl (stays certifies))
  | execute next quorum =>
      exact .inl (inherited (updated (.of_filter rfl fun e o same => by rw [same])))
  | tidy => exact .inl (inherited (inherits_tidy inTable _))

/-! ### Rounds -/

/-- What is known of a request that is marked as committed after a round: it was marked before and
the round did not flush; or it is certified; or the round copied it from the primary. -/
theorem of_shows_round (inTable : site.me < s.records.length)
    (shows : ((s.round site answers).state.own site).Shows a .commit) :
    (.localFlush ∉ (s.round site answers).events ∧ (s.own site).Shows a .commit) ∨
      (s.round site answers).state.Certifies site a ∨
      ∃ primary, answers.viewOf site.me = .id primary ∧ s.roundCopies site answers = true ∧
        (s.recordOf primary).Shows a .commit := by
  have inHonoured : site.me < (s.honourFlush site).records.length := by
    rwa [length_records_honourFlush]
  -- Once a flush has been honoured, nothing is left that could be marked.
  have unflushed (before : ((s.honourFlush site).own site).Shows a .commit) :
      s.flush = false ∧ s.honourFlush site = s := by
    rcases honourFlush_cases inTable with ⟨-, empty⟩ | quiet
    · obtain ⟨e, member, -⟩ := before
      rw [empty] at member
      contradiction
    · exact quiet
  rcases round_stages inTable answers with ⟨-, fresh⟩ | ⟨flushes, ⟨told, state⟩ | staged⟩
  · rw [fresh] at shows
    obtain ⟨e, member, -⟩ := shows
    contradiction
  · left
    rw [state] at shows
    obtain ⟨quiet, same⟩ := unflushed shows
    rw [same] at shows
    exact ⟨by simp [flushes, quiet], shows⟩
  · obtain ⟨primary, told, staged⟩ := staged
    have others : ∀ t, Staged site primary (s.roundCopies site answers) (s.honourFlush site) t →
        primary ≠ site.me → t.recordOf primary = s.recordOf primary := by
      intro t path another
      rw [path.others another]
      exact (recordOf_honourFlush inTable primary).resolve_right fun isMe => another isMe.1
    have known : ((s.honourFlush site).own site).Shows a .commit ∨
        (s.round site answers).state.Certifies site a ∨
        (s.roundCopies site answers = true ∧ (s.recordOf primary).Shows a .commit) := by
      refine staged.keeps (P := fun t => (t.own site).Shows a .commit →
        ((s.honourFlush site).own site).Shows a .commit ∨ t.Certifies site a ∨
          (s.roundCopies site answers = true ∧ (s.recordOf primary).Shows a .commit))
        .inl ?_ shows
      intro t u path stage ih shows
      rcases stage.of_shows (by rwa [path.length]) shows with
        ⟨before, stays⟩ | certifies | ⟨copies, another, shown⟩
      · exact (ih before).imp_right fun known => known.imp_left stays
      · exact .inr (.inl certifies)
      · rw [others t path another] at shown
        exact .inr (.inr ⟨copies, shown⟩)
    rcases known with before | certifies | copied
    · obtain ⟨quiet, same⟩ := unflushed before
      rw [same] at before
      exact .inl ⟨by simp [flushes, quiet], before⟩
    · exact .inr (.inl certifies)
    · exact .inr (.inr ⟨primary, told, copied⟩)

/-! ### Runs -/

/-- After these moves an adopting quorum carries the request as prepared, or one did at an earlier
time since which the replica has not flushed. -/
def Certified (site : Site) (moves : List Move) (a : AssignedRequest) : Prop :=
  ∃ early late, moves = early ++ late ∧ (after site early).Unflushed site late ∧
    (after site early).Certifies site a

/-- The replica has copied the record of the primary when it stopped waiting, since when it has not
flushed, and there the request was marked as committed. -/
def CopiedCommitted (site : Site) (moves : List Move) (a : AssignedRequest) : Prop :=
  ∃ early answers late primary, moves = early ++ .round answers :: late ∧
    answers.viewOf site.me = .id primary ∧ (after site early).roundCopies site answers = true ∧
    ((after site early).recordOf primary).Shows a .commit ∧
    (after site (early ++ [.round answers])).Unflushed site late

theorem Certified.append_singleton (certified : Certified site moves a) {move : Move}
    (noFlush : .localFlush ∉ (after site moves).eventsOf site move) :
    Certified site (moves ++ [move]) a := by
  obtain ⟨early, late, rfl, unflushed, certifies⟩ := certified
  refine ⟨early, late ++ [move], by simp, ?_, certifies⟩
  rw [unflushed_append, ← after_append]
  exact ⟨unflushed, noFlush, trivial⟩

theorem CopiedCommitted.append_singleton (copied : CopiedCommitted site moves a) {move : Move}
    (noFlush : .localFlush ∉ (after site moves).eventsOf site move) :
    CopiedCommitted site (moves ++ [move]) a := by
  obtain ⟨early, answers, late, primary, rfl, told, copies, shown, unflushed⟩ := copied
  refine ⟨early, answers, late ++ [move], primary, by simp, told, copies, shown, ?_⟩
  rw [unflushed_append, ← after_append]
  refine ⟨unflushed, ?_, trivial⟩
  simpa using noFlush

theorem queue_own_new : ((after site []).own site).queue = [] := by
  rw [after, List.foldl_nil, own, recordOf, new, List.getD_eq_getElem?_getD,
    List.getElem?_replicate]
  split <;> rfl

/-- Only a process of the cluster has anything queued. -/
theorem inTable_of_shows {status : Status} (shows : (s.own site).Shows a status) :
    site.me < s.records.length := by
  refine Nat.lt_of_not_le fun outside => ?_
  rw [own, recordOf_eq_blank outside] at shows
  obtain ⟨e, member, -⟩ := shows
  contradiction

/-- A request is marked as committed only if since the last flush it has been certified in the table
of the replica, or has been copied with its mark from the primary of a new view. -/
theorem committed_only_if_certified_or_copied
    (shows : ((after site moves).own site).Shows a .commit) :
    Certified site moves a ∨ CopiedCommitted site moves a := by
  induction moves using List.reverseRecOn with
  | nil =>
      obtain ⟨e, member, -⟩ := shows
      rw [queue_own_new] at member
      contradiction
  | append_singleton moves move ih =>
      have step : after site (moves ++ [move]) = (after site moves).move site move :=
        after_append moves [move]
      have stays (before : ((after site moves).own site).Shows a .commit)
          (noFlush : .localFlush ∉ (after site moves).eventsOf site move) :
          Certified site (moves ++ [move]) a ∨ CopiedCommitted site (moves ++ [move]) a :=
        (ih before).imp (·.append_singleton noFlush) (·.append_singleton noFlush)
      by_cases isRound : ∃ answers, move = .round answers
      · obtain ⟨answers, rfl⟩ := isRound
        rw [step] at shows
        have inTable := inTable_of_shows shows
        rw [Agreement.move, length_records_round] at inTable
        rcases of_shows_round inTable shows with
          ⟨noFlush, before⟩ | certifies | ⟨primary, told, copies, shown⟩
        · exact stays before noFlush
        · refine .inl ⟨moves ++ [.round answers], [], by simp, trivial, ?_⟩
          rwa [step]
        · exact .inr ⟨moves, answers, [], primary, rfl, told, copies, shown, trivial⟩
      · have between : ∀ answers, move ≠ .round answers :=
          fun answers isIt => isRound ⟨answers, isIt⟩
        have queue := (own_move site (after site moves) between).1
        rw [step, Record.Shows, queue] at shows
        refine stays shows ?_
        cases move with
        | round answers => exact absurd rfl (between answers)
        | submit | receive | ask => exact List.not_mem_nil

/-- The follower votes for a request, and hears that two others have voted for it. -/
def gatheringVotes : List Move :=
  proposing [placedRequest 1 1] ++
    [.receive 2 (votingRecord .prepared [placedRequest 1 1]),
      .receive 3 (votingRecord .prepared [placedRequest 1 1]), .round (Ensemble.reporting 0)]

/-- With its own vote and that of the primary these are a quorum, and the follower marks the request
as committed. -/
theorem gathered_votes_certify :
    ((after (sampleSite 1) gatheringVotes).own (sampleSite 1)).Shows (placedRequest 1 1) .commit ∧
      (Certified (sampleSite 1) gatheringVotes (placedRequest 1 1) ∨
        CopiedCommitted (sampleSite 1) gatheringVotes (placedRequest 1 1)) := by
  have marked : decide (((after (sampleSite 1) gatheringVotes).own (sampleSite 1)).Shows
      (placedRequest 1 1) .commit) = true := by cbv
  exact ⟨of_decide_eq_true marked,
    committed_only_if_certified_or_copied (of_decide_eq_true marked)⟩

/-- The primary shows a request as committed, and the follower enters its view. -/
def copyingMark : List Move :=
  [.receive 0 (votingRecord (StatusSet.prepared.insert .commit) [placedRequest 1 1]),
    .round (Ensemble.reporting 0)]

/-- The follower shows the request as committed, too, although it has never seen a quorum prepare
it. -/
theorem copied_mark_uncertified :
    ((after (sampleSite 1) copyingMark).own (sampleSite 1)).Shows (placedRequest 1 1) .commit ∧
      ¬ Certified (sampleSite 1) copyingMark (placedRequest 1 1) := by
  have marked : decide (((after (sampleSite 1) copyingMark).own (sampleSite 1)).Shows
      (placedRequest 1 1) .commit) = true := by cbv
  have never : (copyingMark.inits.all fun early =>
      !decide ((after (sampleSite 1) early).Certifies (sampleSite 1) (placedRequest 1 1))) =
        true := by cbv
  refine ⟨of_decide_eq_true marked, ?_⟩
  rintro ⟨early, late, split, -, certifies⟩
  have listed : early ∈ copyingMark.inits := (List.mem_inits ..).mpr ⟨late, split.symm⟩
  simpa [certifies] using List.all_eq_true.mp never early listed

end Agreement

end QuorumList
