import QuorumList.Proofs.Ensemble
import QuorumList.Proofs.Lawful

/-!
Replication in a single view.

As long as view establishment reports one view to everybody, if any, there is one primary, and what
it assigns is one line.  Every record that any replica holds or has broadcast is lawful for that
line, whatever was delayed, repeated or lost: only the round of the primary makes the line longer,
and a longer line keeps all records lawful.  So all replicas execute the line, and nobody ever sees
a conflict or has a reason to flush.
-/
namespace QuorumList

namespace Agreement

variable {site : Site} {s : Agreement} {v : NodeId} {line : List AssignedRequest}
  {submitted : List ClientRequest} {answers : Answers}

/-! ### A round in the view -/

/-- The primary has given out the numbers of the line, and does not wait for anything unless the
line is empty. -/
def AtEnd (site : Site) (v : NodeId) (line : List AssignedRequest) (s : Agreement) : Prop :=
  site.me = v → (s.own site).seq = line.length ∧ (s.Leading site ∨ line = [])

theorem AtEnd.of_stance_eq {t : Agreement} (atEnd : s.AtEnd site v line)
    (same : (t.own site).stance = (s.own site).stance) : t.AtEnd site v line := by
  intro isPrimary
  obtain ⟨seq, leading⟩ := atEnd isPrimary
  have numbers := congrArg (fun stance => stance.2.2) same
  exact ⟨numbers.trans seq, leading.imp_left fun leads => leads.of_stance_eq same.symm⟩

/-- A primary that enters a view keeps its number, or goes on from what it has executed. -/
theorem seq_own_enterView_eq_or (inTable : site.me < s.records.length) (view : View) :
    ((s.enterView site view site.me).own site).seq = (s.own site).seq ∨
      ((s.enterView site view site.me).own site).seq = (s.own site).lastExec := by
  have tracked : ((s.trackView site view).own site).seq = (s.own site).seq := by
    unfold trackView
    split
    · rfl
    · exact apply_own_updateOwn Record.seq (by intro r; rfl)
  by_cases waiting : ((s.trackView site view).own site).viewChanged = true
  · by_cases quorum : site.cluster.establishQuorum ≤ (s.trackView site view).readyFor view
    · exact .inr (seq_own_enterView inTable waiting quorum)
    · left
      unfold enterView changeView leadView
      dsimp only
      rw [if_pos waiting, if_pos rfl, if_neg quorum]
      exact tracked
  · left
    unfold enterView
    dsimp only
    rw [if_neg waiting]
    exact tracked

/-- A round that follows the view or sees none: nothing happens, or the replica enters the view and
goes on without a flush. -/
theorem Lawful.round_cases (configured : site.cluster.Configured)
    (enough : 3 * site.cluster.faults < site.cluster.size)
    (ofView : ViewLine (.id v) submitted line) (below : s.Below site)
    (lawful : s.Lawful site line submitted) (quiet : s.flush = false)
    (steady : answers.viewOf site.me = .tee ∨ answers.viewOf site.me = .id v) :
    ((s.round site answers).state = s ∧ s.roundAssigns site answers = [] ∧
        (s.round site answers).events = []) ∨
      ((s.round site answers).state =
          ((s.enterView site (.id v) v).proceed site answers (.id v) v).1 ∧
        s.roundAssigns site answers =
          (s.enterView site (.id v) v).proceedAssigns site answers (.id v) v ∧
        ∃ executed, (s.round site answers).events = List.replicate executed .requestCommitted) := by
  have honoured : s.honourFlush site = s := by
    rw [honourFlush, quiet]
    rfl
  obtain ⟨entered, enteredBelow⟩ := lawful.enterView configured enough ofView below v
  have stays := entered.not_mustFlush ofView enteredBelow
  unfold roundAssigns
  rw [state_round]
  unfold Agreement.round
  cases steady with
  | inl unseen =>
      rw [unseen]
      left
      simp [honoured, quiet]
  | inr seen =>
      rw [seen]
      right
      dsimp only
      rw [honoured, actIn_eq, stays]
      simp only [quiet, Bool.false_eq_true, if_false, List.nil_append, true_and]
      rw [actIn_eq, stays]
      exact ⟨_, rfl⟩

/-- A primary that enters its view has given out the numbers of the line, and no others. -/
theorem AtEnd.seq_enterView (configured : site.cluster.Configured)
    (ofView : ViewLine (.id v) submitted line) (lawful : s.Lawful site line submitted)
    (atEnd : s.AtEnd site v line) (isPrimary : site.me = v) :
    ((s.enterView site (.id v) v).own site).seq = line.length := by
  obtain ⟨seq, leading | empty⟩ := atEnd isPrimary
  · rw [← isPrimary, enterView_of_settled leading.1 leading.2]
    exact seq
  · have reached : (s.own site).lastExec ≤ line.length :=
      ((lawful.recordOf site.me).genuine.upTo_lastExec configured.logCapacity_pos
        ofView.numbered).1
    rw [empty, List.length_nil] at seq reached ⊢
    subst isPrimary
    cases seq_own_enterView_eq_or lawful.inTable (.id site.me) with
    | inl keeps => omega
    | inr goesOn => omega

/-- In a round the line gets longer by what the primary assigns, and the primary stays at its
end. -/
theorem AtEnd.proceed (configured : site.cluster.Configured)
    (enough : 3 * site.cluster.faults < site.cluster.size)
    (ofView : ViewLine (.id v) submitted line) (below : s.Below site)
    (lawful : s.Lawful site line submitted) (atEnd : s.AtEnd site v line) :
    ((s.enterView site (.id v) v).proceed site answers (.id v) v).1.AtEnd site v
      (line ++ (s.enterView site (.id v) v).proceedAssigns site answers (.id v) v) := by
  intro isPrimary
  have seq := atEnd.seq_enterView configured ofView lawful isPrimary
  have view := view_own_enterView lawful.inTable (.id v) v
  obtain ⟨entered, enteredBelow⟩ := lawful.enterView configured enough ofView below v
  have found := entered.findCommonHistory configured enough ofView enteredBelow
  have reached : (((s.enterView site (.id v) v).findCommonHistory site).own site).lastExec ≤
      line.length :=
    ((found.recordOf site.me).genuine.upTo_lastExec configured.logCapacity_pos ofView.numbered).1
  rcases stance_own_proceed answers (.id v) v entered.inTable with
    ⟨nothing, stance⟩ | ⟨given, settled, _, stance⟩
  · rw [nothing, List.append_nil]
    refine ⟨(congrArg (fun stance => stance.2.2) stance).trans seq, ?_⟩
    apply (atEnd isPrimary).2.imp_left
    intro leading
    subst isPrimary
    rw [enterView_of_settled leading.1 leading.2] at stance ⊢
    exact leading.of_stance_eq stance.symm
  · rw [given]
    simp only [Record.stance, Prod.mk.injEq] at stance
    refine ⟨?_, .inl ⟨by rw [stance.1, view, isPrimary], by rw [stance.2.1, settled]⟩⟩
    rw [stance.2.2, List.length_append]
    omega

/-- Only the primary makes the line longer. -/
theorem proceedAssigns_of_ne (inTable : site.me < s.records.length) (another : site.me ≠ v) :
    s.proceedAssigns site answers (.id v) v = [] := by
  rcases stance_own_proceed answers (.id v) v inTable with ⟨nothing, _⟩ | ⟨_, _, isMe, _⟩
  · exact nothing
  · exact absurd isMe.symm another

/-- A replica is in the view of a line: its table is lawful for the line, the primary is at its end,
and nobody has asked for a flush. -/
structure InView (site : Site) (v : NodeId) (submitted : List ClientRequest)
    (line : List AssignedRequest) (s : Agreement) : Prop where
  ofView : ViewLine (.id v) submitted line
  lawful : s.Lawful site line submitted
  atEnd : s.AtEnd site v line
  quiet : s.flush = false

theorem InView.round (configured : site.cluster.Configured)
    (enough : 3 * site.cluster.faults < site.cluster.size) (below : s.Below site)
    (inView : s.InView site v submitted line)
    (steady : answers.viewOf site.me = .tee ∨ answers.viewOf site.me = .id v) :
    (s.round site answers).state.InView site v submitted (line ++ s.roundAssigns site answers) ∧
      (site.me ≠ v → s.roundAssigns site answers = []) ∧
      .localFlush ∉ (s.round site answers).events := by
  obtain ⟨ofView, lawful, atEnd, quiet⟩ := inView
  obtain ⟨entered, enteredBelow⟩ := lawful.enterView configured enough ofView below v
  rcases lawful.round_cases configured enough ofView below quiet steady with
    ⟨same, nothing, silent⟩ | ⟨after, given, executed, events⟩
  · rw [same, nothing, silent, List.append_nil]
    exact ⟨⟨ofView, lawful, atEnd, quiet⟩, fun _ => rfl, by simp⟩
  · rw [after, given, events]
    obtain ⟨longer, lawfulAfter⟩ := entered.proceed configured enough ofView enteredBelow answers
      fun isPrimary _ => atEnd.seq_enterView configured ofView lawful isPrimary.symm
    have quietAfter :
        ((s.enterView site (.id v) v).proceed site answers (.id v) v).1.flush = false :=
      proceed_induction (P := fun t => t.flush = false) (fun _ _ same => same)
        (enterView_induction (P := fun t => t.flush = false) (fun _ _ same => same) quiet)
    refine ⟨⟨longer, lawfulAfter, ?_, quietAfter⟩, proceedAssigns_of_ne entered.inTable, by simp⟩
    exact atEnd.proceed configured enough ofView below lawful

/-! ### Between rounds -/

/-- A replica stays in the view while the primary makes the line longer and clients submit more. -/
theorem InView.mono (inView : s.InView site v submitted line) {more : List AssignedRequest}
    {wider : List ClientRequest} (longer : ViewLine (.id v) wider (line ++ more))
    (wide : submitted ⊆ wider) (others : site.me ≠ v ∨ more = []) :
    s.InView site v wider (line ++ more) where
  ofView := longer
  lawful := inView.lawful.mono more wide
  atEnd := by
    rcases others with another | rfl
    · exact fun isPrimary => absurd isPrimary another
    · rw [List.append_nil]
      exact inView.atEnd
  quiet := inView.quiet

theorem InView.submit {q : ClientRequest} (inView : s.InView site v submitted line)
    (known : q ∈ submitted) :
    ((s.submit site q).toOption.getD s).InView site v submitted line := by
  rcases submit_eq_or site s q with same | ⟨bufferable, buffered⟩
  · rw [same]
    exact inView
  · rw [buffered]
    exact
      { ofView := inView.ofView
        lawful := inView.lawful.updateOwn fun own =>
          { genuine := own.genuine.congr rfl rfl
            vouched := own.vouched
            mentions := own.mentions.of_eq rfl rfl
            queueDistinct := own.queueDistinct
            pendingDistinct := own.pendingDistinct.append_singleton bufferable.fresh
            asked := by
              intro p member
              cases List.mem_append.mp member with
              | inl old => exact own.asked p old
              | inr new =>
                  rw [List.mem_singleton.mp new]
                  exact known
            calm := own.calm }
        atEnd := inView.atEnd.of_stance_eq (stance_own_updateOwn fun _ => rfl)
        quiet := inView.quiet }

theorem InView.receive {r : Record} (inView : s.InView site v submitted line)
    (ofR : r.Lawful site.cluster line submitted) (sender : NodeId) :
    (s.receive site sender r).InView site v submitted line where
  ofView := inView.ofView
  lawful :=
    { length := by rw [length_records_receive, inView.lawful.length]
      member := inView.lawful.member
      records := by
        unfold Agreement.receive
        split
        · intro t member
          rcases List.mem_or_eq_of_mem_set member with old | rfl
          · exact inView.lawful.records t old
          · exact ofR.sanitize ..
        · exact inView.lawful.records }
  atEnd := inView.atEnd.of_stance_eq (by rw [own_receive])
  quiet := by
    unfold Agreement.receive
    split
    · exact inView.quiet
    · exact inView.quiet

theorem InView.call {function : Function} {reply : Reply} {t : Agreement}
    (inView : s.InView site v submitted line) (notFlush : function ≠ .replicaFlush)
    (answered : s.call site function = .ok (reply, t)) : t.InView site v submitted line := by
  have same := records_call answered
  have quiet : t.flush = false := by
    unfold Agreement.call at answered
    split at answered
    · exact absurd rfl notFlush
    · obtain ⟨_, rfl⟩ := Prod.mk.inj (Except.ok.inj answered); exact inView.quiet
    · obtain ⟨_, rfl⟩ := Prod.mk.inj (Except.ok.inj answered); exact inView.quiet
    · obtain ⟨_, rfl⟩ := Prod.mk.inj (Except.ok.inj answered); exact inView.quiet
    · contradiction
  exact
    { ofView := inView.ofView
      lawful :=
        { length := by rw [same, inView.lawful.length]
          member := inView.lawful.member
          records := by
            rw [same]
            exact inView.lawful.records }
      atEnd := inView.atEnd.of_stance_eq (by rw [own, recordOf, same]; rfl)
      quiet := quiet }

/-! ### Small numbers -/

theorem Below.submit (below : s.Below site) (q : ClientRequest) :
    ((s.submit site q).toOption.getD s).Below site := by
  rcases submit_eq_or site s q with same | ⟨_, buffered⟩
  · rw [same]
    exact below
  · rw [buffered]
    exact forall_updateOwn below fun own => own

theorem Below.receive {r : Record} (below : s.Below site)
    (ofR : r.seqsBelow site.cluster.seqLimit = true) (sender : NodeId) :
    (s.receive site sender r).Below site := by
  unfold Agreement.receive
  split
  · intro t member
    rcases List.mem_or_eq_of_mem_set member with old | rfl
    · exact below t old
    · obtain ⟨seq, mentions⟩ := Record.seqsBelow_iff.mp ofR
      exact Record.seqsBelow_iff.mpr ⟨seq, mentions.sanitize _ _ _⟩
  · exact below

/-- A round changes only the own record, so the numbers stay small if those of that record do. -/
theorem Below.round (below : s.Below site)
    (small : ((s.round site answers).state.own site).seqsBelow site.cluster.seqLimit = true) :
    (s.round site answers).state.Below site := by
  intro r member
  obtain ⟨k, inTable, rfl⟩ := List.mem_iff_getElem.mp member
  have isRecord : (s.round site answers).state.records[k] =
      (s.round site answers).state.recordOf k := by simp [recordOf, inTable]
  rw [isRecord]
  by_cases isMe : k = site.me
  · rw [isMe]
    exact small
  · rw [recordOf_round_of_ne isMe]
    rw [length_records_round] at inTable
    exact below _ (recordOf_mem inTable)

end Agreement

namespace Ensemble

variable {c : Cluster} {v : NodeId} {line : List AssignedRequest} {e : Ensemble}

/-- An action keeps to a view: rounds are told this view or none, and nobody asks for a flush. -/
def Action.KeepsTo (v : NodeId) : Action → Prop
  | .round k answers => answers.viewOf k = .tee ∨ answers.viewOf k = .id v
  | .ask _ function => function ≠ .replicaFlush
  | .submit .. => True
  | .deliver .. => True

/-- All replicas are in the view, all records that were broadcast are lawful, and nobody has
flushed. -/
structure Steady (c : Cluster) (v : NodeId) (line : List AssignedRequest) (e : Ensemble) :
    Prop where
  ofView : ViewLine (.id v) e.submitted line
  inView : ∀ (k : NodeId) (s : Agreement), e.replicas[k]? = some s →
    s.InView (c.siteOf k) v e.submitted line
  below : 0 < c.seqLimit → ∀ (k : NodeId) (s : Agreement), e.replicas[k]? = some s →
    s.Below (c.siteOf k)
  sent : ∀ m ∈ e.sent, m.2.Lawful c line e.submitted
  calm : ∀ m ∈ e.events, m.2 ≠ .localFlush

theorem steady_start (c : Cluster) (v : NodeId) : (start c).Steady c v [] where
  ofView :=
    { numbered := .nil
      inView := by simp
      asked := by simp
      short := by simp }
  inView := by
    intro k s found
    obtain ⟨inRange, length⟩ := sized_start c k s found
    rw [replicas_start found] at length ⊢
    have seq : ((Agreement.new (c.siteOf k)).own (c.siteOf k)).seq = 0 := by
      rw [Agreement.own, Agreement.recordOf, Agreement.new]
      simp [Record.new, Record.blank, inRange, Cluster.siteOf]
    exact
      { ofView := ⟨.nil, by simp, by simp, by simp⟩
        lawful :=
          { length := length
            member := inRange
            records := fun r member => List.eq_of_mem_replicate member ▸ .new _ }
        atEnd := fun _ => ⟨seq, .inr rfl⟩
        quiet := rfl }
  below := by
    intro positive k s found r member
    rw [replicas_start found] at member
    rw [List.eq_of_mem_replicate member]
    exact Record.seqsBelow_iff.mpr ⟨positive, .new _⟩
  sent := by simp [start]
  calm := by simp [start]

/-- Between rounds one replica changes and stays in the view, or a request is submitted. -/
theorem Steady.put (steady : e.Steady c v line) {k : NodeId} {s t : Agreement}
    {submitted : List ClientRequest} (wide : e.submitted ⊆ submitted)
    (found : e.replicas[k]? = some s)
    (inView : s.InView (c.siteOf k) v submitted line → t.InView (c.siteOf k) v submitted line)
    (below : s.Below (c.siteOf k) → t.Below (c.siteOf k)) :
    ({ e.put k t with submitted := submitted }).Steady c v line := by
  have widened : ∀ (j : NodeId) (r : Agreement), e.replicas[j]? = some r →
      r.InView (c.siteOf j) v submitted line := by
    intro j r foundJ
    have ofView := steady.ofView
    have asked : ViewLine (.id v) submitted (line ++ []) := by
      rw [List.append_nil]
      exact ⟨ofView.numbered, ofView.inView, fun a member => wide (ofView.asked a member),
        ofView.short⟩
    have mono := (steady.inView j r foundJ).mono asked wide (.inr rfl)
    rwa [List.append_nil] at mono
  exact
    { ofView := (widened k s found).ofView
      inView := forall_put widened (inView (widened k s found))
      below := fun positive =>
        forall_put (steady.below positive) (below (steady.below positive k s found))
      sent := by
        intro m member
        have mono := (steady.sent m member).mono [] wide
        rwa [List.append_nil] at mono
      calm := steady.calm }

theorem Steady.round (configured : c.Configured) (enough : 3 * c.faults < c.size)
    (steady : e.Steady c v line) {k : NodeId} {s : Agreement} (found : e.replicas[k]? = some s)
    {answers : Answers} (keeps : answers.viewOf k = .tee ∨ answers.viewOf k = .id v)
    (small : ((s.round (c.siteOf k) answers).state.own (c.siteOf k)).seqsBelow c.seqLimit = true)
    (reigns : List Reign) :
    ({ e.put k (s.round (c.siteOf k) answers).state with
        sent := e.sent ++ [(k, (s.round (c.siteOf k) answers).state.own (c.siteOf k))]
        events := e.events ++ (s.round (c.siteOf k) answers).events.map fun event => (k, event)
        reigns := reigns }).Steady c v (line ++ s.roundAssigns (c.siteOf k) answers) := by
  have positive : 0 < c.seqLimit := Nat.zero_lt_of_lt (Record.seqsBelow_iff.mp small).1
  have below := steady.below positive k s found
  obtain ⟨after, others, noFlush⟩ :=
    (steady.inView k s found).round configured enough below keeps
  exact
    { ofView := after.ofView
      inView := by
        intro j t foundJ
        rcases replicas_put foundJ with ⟨rfl, rfl⟩ | ⟨other, before⟩
        · exact after
        · refine (steady.inView j t before).mono after.ofView (fun _ h => h) ?_
          by_cases isPrimary : k = v
          · exact .inl (isPrimary ▸ other)
          · exact .inr (others isPrimary)
      below := fun _ => forall_put (steady.below positive) (below.round small)
      sent := by
        intro m member
        cases List.mem_append.mp member with
        | inl old => exact (steady.sent m old).mono _ fun _ h => h
        | inr new =>
            rw [List.mem_singleton.mp new]
            exact after.lawful.recordOf k
      calm := by
        intro m member
        cases List.mem_append.mp member with
        | inl old => exact steady.calm m old
        | inr new =>
            obtain ⟨event, counted, rfl⟩ := List.mem_map.mp new
            exact fun isFlush => noFlush (isFlush ▸ counted) }

theorem Steady.act (configured : c.Configured) (enough : 3 * c.faults < c.size)
    (steady : e.Steady c v line) {action : Action} (keeps : action.KeepsTo v)
    (small : ∀ m ∈ (e.act c action).sent, m.2.seqsBelow c.seqLimit = true) :
    ∃ more, (e.act c action).Steady c v (line ++ more) := by
  have smallBefore : ∀ m ∈ e.sent, m.2.seqsBelow c.seqLimit = true :=
    fun m member => small m (sent_act member action)
  -- Only a round can make the line longer, and only that of the primary does.
  have unchanged : ∀ {after : Ensemble}, after.Steady c v line →
      ∃ more, after.Steady c v (line ++ more) := by
    intro after same
    exact ⟨[], by rwa [List.append_nil]⟩
  revert small
  apply act_cases (P := fun after => (∀ m ∈ after.sent, m.2.seqsBelow c.seqLimit = true) →
    ∃ more, after.Steady c v (line ++ more)) action
  · exact fun _ => unchanged steady
  · intro k s q _ found _
    exact unchanged (steady.put (List.subset_append_left ..) found
      (fun inView => inView.submit (List.mem_append_right _ (List.mem_singleton_self q)))
      fun below => below.submit q)
  · intro k s sender r found wasSent _
    exact unchanged (steady.put (fun _ h => h) found
      (fun inView => inView.receive (steady.sent _ wasSent) sender)
      fun below => below.receive (smallBefore _ wasSent) sender)
  · rintro k s answers rfl found small
    have isSmall := small _ (List.mem_append_right _ (List.mem_singleton_self _))
    exact ⟨_, steady.round configured enough found keeps isSmall _⟩
  · rintro k s t function reply rfl found answered _
    refine unchanged (steady.put (fun _ h => h) found (fun inView => inView.call keeps answered) ?_)
    intro below
    unfold Agreement.Below
    rw [Agreement.records_call answered]
    exact below

/-! ### Runs -/

/-- Replicas that are all told one view, or none, execute one sequence of submitted requests.  As
long as no number comes close to the bound, every log shows a block of this sequence, numbered as it
stands there and assigned in the view; every list is the result of its requests up to the last
executed one; and nobody ever raises the conflict flag or flushes. -/
theorem single_view_replication_safe {c : Cluster} {v : NodeId} {actions : List Action}
    (configured : c.Configured) (enough : 3 * c.faults < c.size)
    (keeps : ∀ action ∈ actions, action.KeepsTo v)
    (small : ∀ m ∈ (run c actions).sent, m.2.seqsBelow c.seqLimit = true) :
    ∃ requests : List ClientRequest,
      (∀ q ∈ requests, q ∈ (run c actions).submitted) ∧
      (∀ k < c.size, ∃ s, (run c actions).replicas[k]? = some s ∧
        (∀ a ∈ (s.own (c.siteOf k)).logged,
          a.view = .id v ∧ 1 ≤ a.seq ∧ requests[a.seq - 1]? = some a.request) ∧
        (s.own (c.siteOf k)).logged.map AssignedRequest.seq =
          List.range' ((s.own (c.siteOf k)).lastExec + 1 - (s.own (c.siteOf k)).log.length)
            (s.own (c.siteOf k)).log.length ∧
        (s.own (c.siteOf k)).lastExec ≤ requests.length ∧
        (s.own (c.siteOf k)).state =
          (requests.take (s.own (c.siteOf k)).lastExec).foldl
            (fun state q => q.operation.apply state) [] ∧
        (s.own (c.siteOf k)).conflict = false) ∧
      (∀ m ∈ (run c actions).sent, m.2.conflict = false) ∧
      ∀ m ∈ (run c actions).events, m.2 ≠ .localFlush := by
  have room := configured.logCapacity_pos
  have length : (run c actions).replicas.length = c.size :=
    List.foldlRecOn (motive := fun e => e.replicas.length = c.size) actions (act c)
      (by simp [start, Cluster.nodes]) fun e same action _ =>
        (length_replicas_act e action).trans same
  -- What has been broadcast stays, so small numbers at the end mean small numbers all along: the
  -- bound belongs into the statement that the induction proves.
  have reachable : (∀ m ∈ (run c actions).sent, m.2.seqsBelow c.seqLimit = true) →
      ∃ line, (run c actions).Steady c v line := by
    refine run_induction (P := fun e => (∀ m ∈ e.sent, m.2.seqsBelow c.seqLimit = true) →
      ∃ line, e.Steady c v line) (fun _ => ⟨[], steady_start c v⟩) ?_ actions keeps
    intro e action keepsTo before smallAfter
    obtain ⟨line, steady⟩ := before fun m member => smallAfter m (sent_act member action)
    obtain ⟨more, after⟩ := steady.act configured enough keepsTo smallAfter
    exact ⟨line ++ more, after⟩
  obtain ⟨line, steady⟩ := reachable small
  have ofView := steady.ofView
  refine ⟨line.map AssignedRequest.request, ?_, ?_, ?_, steady.calm⟩
  · intro q member
    obtain ⟨a, inLine, rfl⟩ := List.mem_map.mp member
    exact ofView.asked a inLine
  · intro k inRange
    have inReplicas : k < (run c actions).replicas.length := by omega
    have found := List.getElem?_eq_getElem inReplicas
    have own := (steady.inView k _ found).lawful.recordOf k
    obtain ⟨reached, _, state⟩ := own.genuine.upTo_lastExec room ofView.numbered
    refine ⟨_, found, ?_, ?_, ?_, ?_, ?_⟩
    · intro a logged
      have inLine := own.mentions a (.inr logged)
      obtain ⟨positive, here⟩ := ofView.numbered.getElem?_of_mem inLine
      exact ⟨ofView.inView a inLine, positive, by rw [List.getElem?_map, here]; rfl⟩
    · exact own.genuine.map_seq_logged room ofView.numbered
    · rw [List.length_map]
      exact reached
    · rw [← List.map_take, List.foldl_map]
      exact state
    · exact own.calm
  · exact fun m member => (steady.sent m member).calm

/-- Of two replicas the first executes a request, and the second copies its record. -/
def copyingRun : List Action :=
  [ .submit 0 { client := 0, timestamp := 1, operation := .append 7 }, .round 0 (reporting 0),
    .deliver 1 0, .round 1 (reporting 0) ]

theorem copying_run_safe :
    (run (.new 2 0) copyingRun).sent.map (fun m => (m.2.lastExec, m.2.state)) =
        [(1, [7]), (1, [7])] ∧
      ∃ requests : List ClientRequest, (∀ q ∈ requests, q ∈ (run (.new 2 0) copyingRun).submitted) ∧
        ∃ s, (run (.new 2 0) copyingRun).replicas[1]? = some s ∧
          (s.own (Cluster.siteOf (.new 2 0) 1)).state =
            (requests.take (s.own (Cluster.siteOf (.new 2 0) 1)).lastExec).foldl
              (fun state q => q.operation.apply state) [] := by
  have small : (run (.new 2 0) copyingRun).sent.all
      (fun m => m.2.seqsBelow (Cluster.new 2 0).seqLimit) = true := by cbv
  have keeps : ∀ action ∈ copyingRun, action.KeepsTo 0 := by
    simp [copyingRun, Action.KeepsTo, reporting]
  obtain ⟨requests, submitted, replicas, _⟩ :=
    single_view_replication_safe (.new 2 0) (by decide) keeps (List.all_eq_true.mp small)
  obtain ⟨s, found, _, _, _, state, _⟩ := replicas 1 (by decide)
  exact ⟨by cbv, requests, submitted, s, found, state⟩

end Ensemble

end QuorumList
