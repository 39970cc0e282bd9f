import Mathlib.Data.List.Permutation
import QuorumList.Proofs.Comparison
import QuorumList.Proofs.Ensemble

/-!
Agreement across reigns.

Every request that any record of an ensemble shows was assigned in some reign, and a reign gives out
no number twice: its primary remembers the last one, and begins a new reign before it may fall back
behind it.  So within one reign there is never any disagreement, whatever is lost, delayed or
adopted.

Nothing of the kind ties one reign to the next.  A new primary starts behind what it has executed
itself, or has found executed by an adopting quorum, and gives the next numbers to whatever it has
pending, while a replica of an earlier reign may have executed further.  Agreement holds exactly for
the runs in which later reigns reproduce what was executed in earlier ones.
-/
namespace QuorumList

/-! ### Rounds of a primary -/

namespace Agreement

variable {site : Site} {s : Agreement} {answers : Answers}

theorem not_leading_flushOwn (inTable : site.me < s.records.length) :
    ¬(s.flushOwn site).Leading site := by
  intro leading
  have view := leading.1
  rw [flushOwn, own_updateOwn inTable] at view
  simp [Record.new, Record.blank] at view

theorem not_leading_new (site : Site) : ¬(Agreement.new site).Leading site := by
  intro leading
  have view := leading.1
  by_cases inTable : site.me < site.cluster.size
  · simp [own, recordOf, Agreement.new, Record.new, Record.blank, inTable] at view
  · simp [own, recordOf, Agreement.new, Record.blank, inTable] at view

theorem honourFlush_eq_of_leading (inTable : site.me < s.records.length)
    (leading : (s.honourFlush site).Leading site) : s.honourFlush site = s := by
  unfold honourFlush at *
  split
  · next asked =>
      rw [if_pos asked] at leading
      exact absurd leading (not_leading_flushOwn inTable)
  · rfl

theorem pairwise_roundAssigns (site : Site) (answers : Answers) (s : Agreement) :
    (s.roundAssigns site answers).Pairwise fun a b => a.seq < b.seq := by
  unfold roundAssigns
  split
  · exact .nil
  · dsimp only
    split
    · exact .nil
    · unfold proceedAssigns
      dsimp only
      split
      · exact Record.pairwise_seq_of_map_seq (map_seq_assignments ..)
      · exact .nil

/-- What a round assigns, it assigns in the view of which the replica is the primary. -/
theorem view_of_mem_roundAssigns {a : AssignedRequest}
    (given : a ∈ s.roundAssigns site answers) : a.view = .id site.me := by
  unfold roundAssigns proceedAssigns at given
  split at given
  · simp at given
  · next primary _ =>
      dsimp only at given
      split at given
      · simp at given
      · split at given
        · next assigning =>
            simp only [Bool.and_eq_true, decide_eq_true_eq] at assigning
            rw [view_of_mem_numberBehind given, assigning.2.1]
        · simp at given

/-- A replica that leads after a round has taken over in this round, and goes on behind what it had
executed, or it led before and goes on behind the last number that it gave out.  It remembers the
last number that it gives out. -/
theorem leading_round (inTable : site.me < s.records.length)
    (leading : (s.round site answers).state.Leading site) :
    (∀ a ∈ s.roundAssigns site answers,
        a.seq ≤ ((s.round site answers).state.own site).seq) ∧
      (s.roundLeads site answers = true ∧
          s.roundStart site ≤ ((s.round site answers).state.own site).seq ∧
          (∀ a ∈ s.roundAssigns site answers, s.roundStart site < a.seq) ∨
        s.roundLeads site answers = false ∧ s.Leading site ∧
          (s.own site).seq ≤ ((s.round site answers).state.own site).seq ∧
          ∀ a ∈ s.roundAssigns site answers, (s.own site).seq < a.seq) := by
  have inHonoured : site.me < (s.honourFlush site).records.length := by
    rwa [length_records_honourFlush]
  rw [state_round] at *
  unfold roundAssigns roundLeads roundStart
  cases reported : answers.viewOf site.me with
  | tee =>
      rw [reported] at leading
      dsimp only at leading ⊢
      have same := honourFlush_eq_of_leading inTable leading
      rw [same] at leading ⊢
      exact ⟨by simp, .inr ⟨rfl, leading, Nat.le_refl _, by simp⟩⟩
  | id primary =>
      rw [reported] at leading
      dsimp only at leading ⊢
      have inEntered : site.me <
          ((s.honourFlush site).enterView site (.id primary) primary).records.length := by
        rwa [length_records_enterView]
      rw [actIn_eq] at *
      split at leading
      · exact absurd leading (not_leading_flushOwn inEntered)
      · next stays =>
          rw [if_neg stays, if_neg stays]
          dsimp only at leading ⊢
          -- Assigning does not make a leader, so the replica led when it had entered the view.
          obtain ⟨entered, noLess, numbers⟩ := leading_proceed inEntered leading
          refine ⟨fun a given => (numbers a given).2, ?_⟩
          rcases leading_enterView inHonoured entered with
            ⟨rfl, waiting, quorum⟩ | ⟨same, before, settled⟩
          · left
            have start := seq_own_enterView inHonoured waiting quorum
            rw [start] at noLess numbers
            simp only [Bool.and_eq_true, decide_eq_true_eq]
            exact ⟨⟨⟨trivial, waiting⟩, quorum⟩, noLess, fun a given => (numbers a given).1⟩
          · right
            have honoured := honourFlush_eq_of_leading inTable before
            have start : (((s.honourFlush site).enterView site (.id primary) primary).own
                site).seq = (s.own site).seq := by rw [same, honoured]
            refine ⟨by simp [settled], honoured ▸ before, start ▸ noLess, fun a given => ?_⟩
            exact start ▸ (numbers a given).1

/-- Only a replica that leads assigns. -/
theorem leading_of_roundAssigns (inTable : site.me < s.records.length)
    {a : AssignedRequest} (given : a ∈ s.roundAssigns site answers) :
    (s.round site answers).state.Leading site := by
  have inHonoured : site.me < (s.honourFlush site).records.length := by
    rwa [length_records_honourFlush]
  rw [state_round]
  unfold roundAssigns at given
  cases reported : answers.viewOf site.me with
  | tee => simp [reported] at given
  | id primary =>
      have inEntered : site.me <
          ((s.honourFlush site).enterView site (.id primary) primary).records.length := by
        rwa [length_records_enterView]
      have view := view_own_enterView inHonoured (.id primary) primary
      rw [reported] at given
      dsimp only at given ⊢
      rw [actIn_eq]
      split at given
      · simp at given
      · next stays =>
          rw [if_neg stays]
          rcases stance_own_proceed answers (.id primary) primary inEntered with
            ⟨nothing, _⟩ | ⟨_, settled, isMe, stance⟩
          · rw [nothing] at given
            simp at given
          · simp only [Record.stance, Prod.mk.injEq] at stance
            exact ⟨by rw [stance.1, view, isMe], by rw [stance.2.1, settled]⟩

end Agreement

/-! ### Reigns -/

/-- A reign has come no further than a number. -/
def Reign.UpTo (g : Reign) (last : Nat) : Prop :=
  g.start ≤ last ∧ ∀ a ∈ g.assigned, a.seq ≤ last

namespace Ensemble

variable {c : Cluster} {e : Ensemble} {k j : NodeId} {s : Agreement}
  {reigns : List Reign} {given : List AssignedRequest}

/-- The latest reign of a primary. -/
def latest? (k : NodeId) (reigns : List Reign) : Option Reign :=
  reigns.find? fun g => g.leader = k

theorem leader_of_latest? {g : Reign} (latest : latest? k reigns = some g) : g.leader = k := by
  unfold latest? at latest
  simpa using List.find?_some latest

theorem latest?_extendReign (k : NodeId) (given : List AssignedRequest) (reigns : List Reign) :
    latest? k (extendReign k given reigns) =
      (latest? k reigns).map fun g => { g with assigned := g.assigned ++ given } := by
  unfold latest?
  induction reigns with
  | nil => rfl
  | cons g earlier ih =>
      unfold extendReign
      by_cases isLeader : g.leader = k
      · simp [isLeader]
      · simp [isLeader, ih]

theorem latest?_extendReign_of_ne (other : j ≠ k) :
    latest? j (extendReign k given reigns) = latest? j reigns := by
  unfold latest?
  induction reigns with
  | nil => rfl
  | cons g earlier ih =>
      unfold extendReign
      by_cases isLeader : g.leader = k
      · simp [isLeader, Ne.symm other]
      · simp [isLeader, List.find?_cons, ih]

/-- Only the latest reign of the primary gets longer. -/
theorem of_mem_extendReign {g : Reign} (member : g ∈ extendReign k given reigns) :
    g ∈ reigns ∨
      ∃ old, latest? k reigns = some old ∧ g = { old with assigned := old.assigned ++ given } := by
  unfold latest?
  induction reigns with
  | nil => simp [extendReign] at member
  | cons first earlier ih =>
      unfold extendReign at member
      split at member
      · next isLeader =>
          rcases List.mem_cons.mp member with rfl | inRest
          · exact .inr ⟨first, by simp [isLeader], rfl⟩
          · exact .inl (List.mem_cons_of_mem _ inRest)
      · next another =>
          rcases List.mem_cons.mp member with rfl | inRest
          · exact .inl List.mem_cons_self
          · rcases ih inRest with old | ⟨old, found, rfl⟩
            · exact .inl (List.mem_cons_of_mem _ old)
            · exact .inr ⟨old, by simp [another, found], rfl⟩

/-- No reign loses a request. -/
theorem exists_mem_extendReign {g : Reign} (member : g ∈ reigns) :
    ∃ longer ∈ extendReign k given reigns, g.assigned ⊆ longer.assigned := by
  induction reigns with
  | nil => simp at member
  | cons first earlier ih =>
      unfold extendReign
      split
      · rcases List.mem_cons.mp member with rfl | inRest
        · exact ⟨_, List.mem_cons_self, List.subset_append_left ..⟩
        · exact ⟨g, List.mem_cons_of_mem _ inRest, fun _ h => h⟩
      · rcases List.mem_cons.mp member with rfl | inRest
        · exact ⟨g, List.mem_cons_self, fun _ h => h⟩
        · obtain ⟨longer, inLonger, more⟩ := ih inRest
          exact ⟨longer, List.mem_cons_of_mem _ inLonger, more⟩

/-- A request was assigned in some reign. -/
def Assigned (e : Ensemble) (a : AssignedRequest) : Prop :=
  ∃ g ∈ e.reigns, a ∈ g.assigned

/-- Every request that a record shows was assigned, reigns give out rising numbers behind their
start, in the view of their primaries, and a primary that leads remembers the last number of its
reign. -/
structure Traced (c : Cluster) (e : Ensemble) : Prop where
  sized : e.Sized c
  tables : ∀ (k : NodeId) (s : Agreement), e.replicas[k]? = some s → s.Mentions e.Assigned
  sent : ∀ m ∈ e.sent, m.2.Mentions e.Assigned
  rising : ∀ g ∈ e.reigns, g.assigned.Pairwise fun a b => a.seq < b.seq
  assigned : ∀ g ∈ e.reigns, ∀ a ∈ g.assigned, g.start < a.seq ∧ a.view = .id g.leader
  remembered : ∀ (k : NodeId) (s : Agreement), e.replicas[k]? = some s → s.Leading (c.siteOf k) →
    ∃ g, latest? k e.reigns = some g ∧ g.UpTo (s.own (c.siteOf k)).seq

theorem traced_start (c : Cluster) : (start c).Traced c where
  sized := sized_start c
  tables := by
    intro k s found r member
    rw [replicas_start found] at member
    rw [List.eq_of_mem_replicate member]
    exact .new _
  sent := by simp [start]
  rising := by simp [start]
  assigned := by simp [start]
  remembered := by
    intro k s found leading
    rw [replicas_start found] at leading
    exact absurd leading (Agreement.not_leading_new _)

/-! ### A round -/

/-- The reigns of a round before it assigns anything. -/
def begunReigns (site : Site) (answers : Answers) (s : Agreement) (reigns : List Reign) :
    List Reign :=
  if s.roundLeads site answers then
    { leader := site.me, start := s.roundStart site, assigned := [] } :: reigns
  else reigns

theorem noteRound_eq (site : Site) (answers : Answers) :
    noteRound site answers s reigns =
      extendReign site.me (s.roundAssigns site answers) (begunReigns site answers s reigns) := rfl

theorem mem_begunReigns {site : Site} {answers : Answers} {g : Reign}
    (member : g ∈ begunReigns site answers s reigns) : g.assigned = [] ∨ g ∈ reigns := by
  unfold begunReigns at member
  split at member
  · rcases List.mem_cons.mp member with rfl | old
    · exact .inl rfl
    · exact .inr old
  · exact .inr member

theorem mem_begunReigns_of_mem {site : Site} {answers : Answers} {g : Reign}
    (member : g ∈ reigns) : g ∈ begunReigns site answers s reigns := by
  unfold begunReigns
  split
  · exact List.mem_cons_of_mem _ member
  · exact member

theorem latest?_begunReigns_of_ne {site : Site} {answers : Answers} (other : j ≠ site.me) :
    latest? j (begunReigns site answers s reigns) = latest? j reigns := by
  unfold begunReigns latest?
  split
  · simp [Ne.symm other]
  · rfl

theorem latest?_noteRound_of_ne {site : Site} {answers : Answers} (other : j ≠ site.me) :
    latest? j (noteRound site answers s reigns) = latest? j reigns := by
  rw [noteRound_eq, latest?_extendReign_of_ne other, latest?_begunReigns_of_ne other]

/-- The reign to which the requests of a round are added has come less far than they. -/
theorem Traced.begun (traced : e.Traced c) (found : e.replicas[k]? = some s) {answers : Answers}
    (leading : (s.round (c.siteOf k) answers).state.Leading (c.siteOf k)) :
    ∃ g, latest? k (begunReigns (c.siteOf k) answers s e.reigns) = some g ∧
      g.UpTo ((s.round (c.siteOf k) answers).state.own (c.siteOf k)).seq ∧
      ∀ b ∈ s.roundAssigns (c.siteOf k) answers,
        g.start < b.seq ∧ ∀ a ∈ g.assigned, a.seq < b.seq := by
  obtain ⟨_, begins⟩ := Agreement.leading_round (traced.sized.inTable found) leading
  unfold begunReigns
  rcases begins with ⟨leads, reached, beyond⟩ | ⟨keeps, before, noLess, beyond⟩
  · rw [if_pos leads]
    refine ⟨{ leader := k, start := s.roundStart (c.siteOf k), assigned := [] }, ?_,
      ⟨reached, by simp⟩, fun b given => ⟨beyond b given, by simp⟩⟩
    simp [latest?, Cluster.siteOf]
  · obtain ⟨g, latest, started, numbers⟩ := traced.remembered k s found before
    rw [if_neg (by simp [keeps])]
    refine ⟨g, latest, ⟨Nat.le_trans started noLess, fun a member => ?_⟩, fun b given => ?_⟩
    · exact Nat.le_trans (numbers a member) noLess
    · refine ⟨Nat.lt_of_le_of_lt started (beyond b given), fun a member => ?_⟩
      exact Nat.lt_of_le_of_lt (numbers a member) (beyond b given)

theorem Traced.rising_noteRound (traced : e.Traced c) (found : e.replicas[k]? = some s)
    (answers : Answers) :
    ∀ g ∈ noteRound (c.siteOf k) answers s e.reigns,
      g.assigned.Pairwise fun a b => a.seq < b.seq := by
  intro g member
  have before : ∀ g ∈ begunReigns (c.siteOf k) answers s e.reigns,
      g.assigned.Pairwise fun a b => a.seq < b.seq := by
    intro g member
    cases mem_begunReigns member with
    | inl empty =>
        rw [empty]
        exact .nil
    | inr old => exact traced.rising g old
  rw [noteRound_eq] at member
  rcases of_mem_extendReign member with old | ⟨old, latest, rfl⟩
  · exact before g old
  · refine List.pairwise_append.mpr ⟨before old (List.mem_of_find?_eq_some latest),
      Agreement.pairwise_roundAssigns .., fun a held b given => ?_⟩
    obtain ⟨same, current, numbers⟩ :=
      traced.begun found (Agreement.leading_of_roundAssigns (traced.sized.inTable found) given)
    obtain rfl : old = same := Option.some.inj (latest.symm.trans current)
    exact (numbers.2 b given).2 a held

theorem Traced.assigned_noteRound (traced : e.Traced c) (found : e.replicas[k]? = some s)
    (answers : Answers) :
    ∀ g ∈ noteRound (c.siteOf k) answers s e.reigns, ∀ a ∈ g.assigned,
      g.start < a.seq ∧ a.view = .id g.leader := by
  intro g member a inReign
  have before : ∀ g ∈ begunReigns (c.siteOf k) answers s e.reigns, ∀ a ∈ g.assigned,
      g.start < a.seq ∧ a.view = .id g.leader := by
    intro g member a inReign
    cases mem_begunReigns member with
    | inl empty => simp [empty] at inReign
    | inr old => exact traced.assigned g old a inReign
  rw [noteRound_eq] at member
  rcases of_mem_extendReign member with old | ⟨old, latest, rfl⟩
  · exact before g old a inReign
  · have leader : old.leader = k := leader_of_latest? latest
    cases List.mem_append.mp inReign with
    | inl held => exact before old (List.mem_of_find?_eq_some latest) a held
    | inr given =>
        obtain ⟨same, current, numbers⟩ :=
          traced.begun found (Agreement.leading_of_roundAssigns (traced.sized.inTable found) given)
        obtain rfl : old = same := Option.some.inj (latest.symm.trans current)
        refine ⟨(numbers.2 a given).1, ?_⟩
        rw [Agreement.view_of_mem_roundAssigns given, leader]
        rfl

theorem Traced.remembered_noteRound (traced : e.Traced c) (found : e.replicas[k]? = some s)
    {answers : Answers}
    (leading : (s.round (c.siteOf k) answers).state.Leading (c.siteOf k)) :
    ∃ g, latest? k (noteRound (c.siteOf k) answers s e.reigns) = some g ∧
      g.UpTo ((s.round (c.siteOf k) answers).state.own (c.siteOf k)).seq := by
  obtain ⟨given, _⟩ := Agreement.leading_round (traced.sized.inTable found) leading
  obtain ⟨g, latest, ⟨started, numbers⟩, _⟩ := traced.begun found leading
  have longer := latest?_extendReign k (s.roundAssigns (c.siteOf k) answers)
    (begunReigns (c.siteOf k) answers s e.reigns)
  rw [latest] at longer
  refine ⟨_, longer, started, fun a member => ?_⟩
  cases List.mem_append.mp member with
  | inl old => exact numbers a old
  | inr new => exact given a new

/-- The requests that a round assigns are noted, and none is forgotten. -/
theorem Traced.noted (traced : e.Traced c) (found : e.replicas[k]? = some s)
    (answers : Answers) {a : AssignedRequest}
    (assigned : e.Assigned a ∨ a ∈ s.roundAssigns (c.siteOf k) answers) :
    ∃ g ∈ noteRound (c.siteOf k) answers s e.reigns, a ∈ g.assigned := by
  rcases assigned with ⟨g, member, inReign⟩ | given
  · obtain ⟨longer, inLonger, more⟩ := exists_mem_extendReign (mem_begunReigns_of_mem member)
    exact ⟨longer, inLonger, more inReign⟩
  · obtain ⟨g, latest, _⟩ :=
      traced.begun found (Agreement.leading_of_roundAssigns (traced.sized.inTable found) given)
    have longer := latest?_extendReign k (s.roundAssigns (c.siteOf k) answers)
      (begunReigns (c.siteOf k) answers s e.reigns)
    rw [latest] at longer
    exact ⟨_, List.mem_of_find?_eq_some longer, List.mem_append_right _ given⟩

theorem Traced.round (traced : e.Traced c) (found : e.replicas[k]? = some s) (answers : Answers)
    (events : List (NodeId × Event)) :
    ({ e.put k (s.round (c.siteOf k) answers).state with
        sent := e.sent ++ [(k, (s.round (c.siteOf k) answers).state.own (c.siteOf k))]
        events := events
        reigns := noteRound (c.siteOf k) answers s e.reigns }).Traced c := by
  have noted := fun a => traced.noted found answers (a := a)
  have after : (s.round (c.siteOf k) answers).state.Mentions
      fun a => ∃ g ∈ noteRound (c.siteOf k) answers s e.reigns, a ∈ g.assigned :=
    Agreement.Mentions.round
      (fun r member => (traced.tables k s found r member).mono fun a old => noted a (.inl old))
      fun a given => noted a (.inr given)
  exact
    { sized := forall_put traced.sized ⟨(traced.sized k s found).1, by
        rw [Agreement.length_records_round]
        exact (traced.sized k s found).2⟩
      tables := by
        refine forall_put (fun j t foundJ r member => ?_) after
        exact (traced.tables j t foundJ r member).mono fun a old => noted a (.inl old)
      sent := by
        intro m member
        cases List.mem_append.mp member with
        | inl old => exact (traced.sent m old).mono fun a old => noted a (.inl old)
        | inr new =>
            rw [List.mem_singleton.mp new]
            exact after.recordOf k
      rising := traced.rising_noteRound found answers
      assigned := traced.assigned_noteRound found answers
      remembered := by
        intro j t foundJ leading
        rcases replicas_put foundJ with ⟨rfl, rfl⟩ | ⟨other, before⟩
        · exact traced.remembered_noteRound found leading
        · obtain ⟨g, latest, numbers⟩ := traced.remembered j t before leading
          exact ⟨g, (latest?_noteRound_of_ne other).trans latest, numbers⟩ }

/-! ### Runs -/

/-- Between rounds nothing is assigned, and no replica changes its stance. -/
theorem Traced.put (traced : e.Traced c) (found : e.replicas[k]? = some s) {t : Agreement}
    (length : t.records.length = s.records.length) (mentions : t.Mentions e.Assigned)
    (same : (t.own (c.siteOf k)).stance = (s.own (c.siteOf k)).stance)
    (submitted : List ClientRequest) : ({ e.put k t with submitted := submitted }).Traced c where
  sized := forall_put traced.sized ⟨(traced.sized k s found).1, by
    rw [length]
    exact (traced.sized k s found).2⟩
  tables := forall_put traced.tables mentions
  sent := traced.sent
  rising := traced.rising
  assigned := traced.assigned
  remembered := by
    apply forall_put traced.remembered
    intro leading
    obtain ⟨g, latest, numbers⟩ := traced.remembered k s found (leading.of_stance_eq same)
    simp only [Record.stance, Prod.mk.injEq] at same
    exact ⟨g, latest, same.2.2 ▸ numbers⟩

theorem Traced.act (traced : e.Traced c) (action : Action) : (e.act c action).Traced c := by
  apply act_cases (P := fun after => after.Traced c) action traced
  · intro k s q _ found
    have mentions := (traced.tables k s found).submit (c.siteOf k) q
    rcases Agreement.submit_eq_or (c.siteOf k) s q with same | ⟨_, buffered⟩
    · rw [same] at mentions ⊢
      exact traced.put found rfl mentions rfl _
    · rw [buffered] at mentions ⊢
      refine traced.put found (Agreement.length_records_updateOwn ..) mentions ?_ _
      exact Agreement.stance_own_updateOwn fun _ => rfl
  · intro k s sender r found wasSent
    have mentions := (traced.tables k s found).receive (c.siteOf k) (traced.sent _ wasSent) sender
    refine traced.put found (Agreement.length_records_receive ..) mentions ?_ e.submitted
    rw [Agreement.own_receive]
  · intro k s answers _ found
    exact traced.round found answers _
  · intro k s t function reply _ found answered
    have same := Agreement.records_call answered
    refine traced.put found (by rw [same]) ?_ ?_ e.submitted
    · unfold Agreement.Mentions
      rw [same]
      exact traced.tables k s found
    · rw [Agreement.own, Agreement.recordOf, same]
      rfl

theorem traced_run (c : Cluster) (actions : List Action) : (run c actions).Traced c :=
  List.foldlRecOn _ _ (traced_start c) fun _ traced action _ => traced.act action

/-! ### When replicas agree -/

/-- All records of the ensemble: those that replicas hold, and those that were ever broadcast. -/
def records (e : Ensemble) : List Record :=
  e.replicas.flatMap Agreement.records ++ e.sent.map Prod.snd

/-- A replica has shown the request as executed. -/
def Executed (e : Ensemble) (a : AssignedRequest) : Prop :=
  ∃ r ∈ e.records, a ∈ r.logged

theorem Traced.assigned_of_executed (traced : e.Traced c) {a : AssignedRequest}
    (executed : e.Executed a) : e.Assigned a := by
  obtain ⟨r, member, logged⟩ := executed
  cases List.mem_append.mp member with
  | inl held =>
      obtain ⟨s, isReplica, inTable⟩ := List.mem_flatMap.mp held
      obtain ⟨k, found⟩ := List.mem_iff_getElem?.mp isReplica
      exact traced.tables k s found r inTable a (.inr logged)
  | inr wasSent =>
      obtain ⟨m, inSent, rfl⟩ := List.mem_map.mp wasSent
      exact traced.sent m inSent a (.inr logged)

theorem executed_of_sent {m : NodeId × Record} (member : m ∈ e.sent) {a : AssignedRequest}
    (logged : a ∈ m.2.logged) : e.Executed a :=
  ⟨m.2, List.mem_append_right _ (List.mem_map_of_mem member), logged⟩

/-- Over any run, every request that a replica ever shows as executed was assigned in some reign, in
the view of its primary, and a reign gives out each number at most once, and none up to what its
primary had executed when it took over.  So no two replicas ever show different requests as executed
at one number, in one view or in different ones, exactly when later reigns reproduce what was
executed in earlier ones beyond their start: wherever requests of two reigns were executed at one
such number, they are the same request of a client. -/
theorem agreement_iff_reigns_reproduce (c : Cluster) (actions : List Action) :
    (∀ a, (run c actions).Executed a →
        ∃ g ∈ (run c actions).reigns, a ∈ g.assigned ∧ a.view = .id g.leader) ∧
      (∀ g ∈ (run c actions).reigns, (g.assigned.Pairwise fun a b => a.seq < b.seq) ∧
        ∀ a ∈ g.assigned, g.start < a.seq) ∧
      ((∀ a b, (run c actions).Executed a → (run c actions).Executed b → a.seq = b.seq →
          a.request = b.request) ↔
        (run c actions).reigns.Pairwise fun later earlier =>
          ∀ a ∈ earlier.assigned, ∀ b ∈ later.assigned, (run c actions).Executed a →
            (run c actions).Executed b → later.start < a.seq → a.seq = b.seq →
            a.request = b.request) := by
  have traced := traced_run c actions
  refine ⟨fun a executed => ?_, fun g member => ⟨traced.rising g member, fun a inReign => ?_⟩, ?_⟩
  · obtain ⟨g, member, inReign⟩ := traced.assigned_of_executed executed
    exact ⟨g, member, inReign, (traced.assigned g member a inReign).2⟩
  · exact (traced.assigned g member a inReign).1
  constructor
  · intro agree
    exact List.pairwise_of_forall fun later earlier a _ b _ executedA executedB _ =>
      agree a b executedA executedB
  · intro reproduced a b executedA executedB same
    obtain ⟨g, ofG, inG⟩ := traced.assigned_of_executed executedA
    obtain ⟨h, ofH, inH⟩ := traced.assigned_of_executed executedB
    have behindG := (traced.assigned g ofG a inG).1
    have behindH := (traced.assigned h ofH b inH).1
    obtain ⟨i, inI, rfl⟩ := List.mem_iff_getElem.mp ofG
    obtain ⟨j, inJ, rfl⟩ := List.mem_iff_getElem.mp ofH
    have ordered := List.pairwise_iff_getElem.mp reproduced
    -- Reigns stand latest first: of two reigns the one at the smaller index is the later one.
    rcases Nat.lt_trichotomy i j with less | rfl | more
    · exact (ordered i j inI inJ less b inH a inG executedB executedA (same ▸ behindG)
        same.symm).symm
    · rw [Record.eq_of_seq_eq_of_pairwise (traced.rising _ ofG) inG inH same]
    · exact ordered j i inJ inI more a inG b inH executedA executedB (same ▸ behindH) same

/-- Replicas run a round and are told a view. -/
def roundsIn (view : NodeId) (replicas : List NodeId) : List Action :=
  replicas.map fun k => .round k (reporting view)

/-- Some broadcast records arrive at some replicas. -/
def arrivals (indices receivers : List Nat) : List Action :=
  indices.flatMap fun index => receivers.map fun k => .deliver k index

/-- A primary takes over a view for which others wait, and assigns a request; `next` is the number
of records that were broadcast before. -/
def takeOver (primary : NodeId) (waiting : List NodeId) (q : ClientRequest) (next : Nat) :
    List Action :=
  roundsIn primary waiting ++ arrivals (List.range' next 4) [primary] ++ [.submit primary q] ++
    roundsIn primary [primary]

/-- Replicas 2, 3 and 4 commit what the primary has assigned, and the primary executes it. -/
def soleExecution (primary : NodeId) (next : Nat) : List Action :=
  arrivals [next] [2, 3, 4] ++ roundsIn primary [2, 3, 4] ++
    arrivals (List.range' (next + 1) 3) [2, 3, 4] ++ roundsIn primary [2, 3, 4] ++
    arrivals (List.range' (next + 4) 3) [primary] ++ roundsIn primary [primary]

def firstRequest : ClientRequest :=
  { client := 0, timestamp := 1, operation := .append 10 }

def secondRequest : ClientRequest :=
  { client := 1, timestamp := 1, operation := .append 20 }

def pairCluster : Cluster :=
  (Cluster.new 6 1).withClients 2

/-- Replica 0 leads view 0 and executes the first request on its own; then replica 1 leads view 1
and executes the second one. -/
def splitRun : List Action :=
  takeOver 0 [1, 2, 3, 4] firstRequest 0 ++ soleExecution 0 4 ++
    takeOver 1 [2, 3, 4, 5] secondRequest 12 ++ soleExecution 1 16

def freshRecord : Record :=
  .new 2

/-- A record that waits for the primary of a view. -/
def waitingIn (primary : NodeId) (r : Record) : Record :=
  { r with view := .id primary, viewChanged := true }

/-- A request of a view under agreement. -/
def underAgreement (primary : NodeId) (q : ClientRequest) (status : StatusSet) : Record :=
  { freshRecord with
    pending := [q]
    queue := [{ request := { request := q, view := .id primary, seq := 1 }, status := status }]
    seq := 1
    view := .id primary }

def proposedRecord (primary : NodeId) (q : ClientRequest) : Record :=
  underAgreement primary q .prepared

def committedRecord (primary : NodeId) (q : ClientRequest) : Record :=
  underAgreement primary q (StatusSet.prepared.insert .commit)

/-- A request of a view that the primary has executed first. -/
def executedRecord (primary : NodeId) (q : ClientRequest) (state : List Int)
    (replies : List (Option LastReply)) : Record :=
  { freshRecord with
    state := state
    log := [{ request := { request := q, view := .id primary, seq := 1 }
              executedBy := .ofList [primary, 2, 3, 4] }]
    replies := replies
    seq := 1
    view := .id primary }

def executedFirst : Record :=
  executedRecord 0 firstRequest [10] [some { request := firstRequest, reply := [10] }, none]

def executedSecond : Record :=
  executedRecord 1 secondRequest [20] [none, some { request := secondRequest, reply := [20] }]

def tableOf (records : List Record) : Agreement :=
  { records := records, flush := false, needFlush := false }

/-- Replica 0 has assigned the first request. -/
def begun : Ensemble :=
  let fresh := freshRecord
  let waiting := waitingIn 0 freshRecord
  let assigned := proposedRecord 0 firstRequest
  { replicas :=
      [ tableOf [assigned, waiting, waiting, waiting, waiting, fresh],
        tableOf [fresh, waiting, fresh, fresh, fresh, fresh],
        tableOf [fresh, fresh, waiting, fresh, fresh, fresh],
        tableOf [fresh, fresh, fresh, waiting, fresh, fresh],
        tableOf [fresh, fresh, fresh, fresh, waiting, fresh],
        tableOf [fresh, fresh, fresh, fresh, fresh, fresh] ]
    sent := [(1, waiting), (2, waiting), (3, waiting), (4, waiting), (0, assigned)]
    submitted := [firstRequest]
    events := []
    reigns :=
      [ { leader := 0
          start := 0
          assigned := [{ request := firstRequest, view := .id 0, seq := 1 }] } ] }

/-- Replica 0 has executed the first request, and nobody knows. -/
def halfway : Ensemble :=
  let fresh := freshRecord
  let waiting := waitingIn 0 freshRecord
  let first := proposedRecord 0 firstRequest
  let done := committedRecord 0 firstRequest
  { begun with
    replicas :=
      [ tableOf [executedFirst, waiting, done, done, done, fresh],
        tableOf [fresh, waiting, fresh, fresh, fresh, fresh],
        tableOf [first, fresh, done, first, first, fresh],
        tableOf [first, fresh, first, done, first, fresh],
        tableOf [first, fresh, first, first, done, fresh],
        tableOf [fresh, fresh, fresh, fresh, fresh, fresh] ]
    sent := begun.sent ++
      [(2, first), (3, first), (4, first), (2, done), (3, done), (4, done), (0, executedFirst)]
    events := [(0, .requestCommitted)] }

/-- Replica 1 has taken over without the first request, and has assigned the second one. -/
def resumed : Ensemble :=
  let fresh := freshRecord
  let waiting := waitingIn 1 freshRecord
  let first := proposedRecord 0 firstRequest
  let done := committedRecord 0 firstRequest
  let rest := waitingIn 1 (committedRecord 0 firstRequest)
  let second := proposedRecord 1 secondRequest
  { replicas :=
      [ tableOf [executedFirst, waitingIn 0 freshRecord, done, done, done, fresh],
        tableOf [fresh, second, rest, rest, rest, waiting],
        tableOf [first, fresh, rest, first, first, fresh],
        tableOf [first, fresh, first, rest, first, fresh],
        tableOf [first, fresh, first, first, rest, fresh],
        tableOf [fresh, fresh, fresh, fresh, fresh, waiting] ]
    sent := halfway.sent ++ [(2, rest), (3, rest), (4, rest), (5, waiting), (1, second)]
    submitted := [firstRequest, secondRequest]
    events := [(0, .requestCommitted)]
    reigns :=
      { leader := 1
        start := 0
        assigned := [{ request := secondRequest, view := .id 1, seq := 1 }] } :: begun.reigns }

theorem run_begun : run pairCluster (takeOver 0 [1, 2, 3, 4] firstRequest 0) = begun := by cbv

theorem foldl_halfway : (soleExecution 0 4).foldl (act pairCluster) begun = halfway := by cbv

theorem foldl_resumed :
    (takeOver 1 [2, 3, 4, 5] secondRequest 12).foldl (act pairCluster) halfway = resumed := by cbv

theorem foldl_finished :
    (fun e : Ensemble => (e.sent, e.events))
        ((soleExecution 1 16).foldl (act pairCluster) resumed) =
      (resumed.sent ++
          [ (2, proposedRecord 1 secondRequest), (3, proposedRecord 1 secondRequest),
            (4, proposedRecord 1 secondRequest), (2, committedRecord 1 secondRequest),
            (3, committedRecord 1 secondRequest), (4, committedRecord 1 secondRequest),
            (1, executedSecond) ],
        [(0, .requestCommitted), (1, .requestCommitted)]) := by cbv

/-- Six correct replicas, none of which ever flushes, execute different requests at number 1. -/
theorem split_run_disagrees :
    5 * pairCluster.faults < pairCluster.size ∧
      (∀ m ∈ (run pairCluster splitRun).events, m.2 ≠ .localFlush) ∧
      ∃ a b, (run pairCluster splitRun).Executed a ∧ (run pairCluster splitRun).Executed b ∧
        a.seq = b.seq ∧ a.request ≠ b.request := by
  have stages :
      run pairCluster splitRun = (soleExecution 1 16).foldl (act pairCluster) resumed := by
    rw [splitRun, run, List.foldl_append, List.foldl_append, List.foldl_append, ← foldl_resumed,
      ← foldl_halfway, ← run_begun, run]
  obtain ⟨sent, events⟩ := Prod.mk.inj foldl_finished
  rw [← stages] at sent events
  have shown : ∀ m ∈ [(0, executedFirst), (1, executedSecond)],
      m ∈ (run pairCluster splitRun).sent := by
    intro m member
    rw [sent]
    revert m
    decide +kernel
  refine ⟨by decide, ?_, { request := firstRequest, view := .id 0, seq := 1 },
    { request := secondRequest, view := .id 1, seq := 1 }, ?_, ?_, rfl, by decide⟩
  · rw [events]
    decide
  · exact executed_of_sent (shown (0, executedFirst) (by simp)) (by decide)
  · exact executed_of_sent (shown (1, executedSecond) (by simp)) (by decide)

end Ensemble

end QuorumList
