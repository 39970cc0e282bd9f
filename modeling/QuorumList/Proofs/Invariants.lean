import QuorumList.Proofs.Changes
import QuorumList.Proofs.SingleView

/-!
Invariants of records.

While all replicas stay in one view, few things happen to a record: the line gets longer, a request
is buffered, a record that arrives is cut to the bounds of the cluster, and a round makes the
changes that `Entry` and `Change` list.  A property that relates a record to the line is upheld when
each of these keeps it.  Then it holds of all records of a run, of those that replicas hold and of
those that were ever broadcast.
-/
namespace QuorumList

open Agreement (Change Entry)

/-- Everything that happens to a record in a view keeps a property of the record and the line. -/
structure Upheld (c : Cluster) (P : List AssignedRequest → Record → Prop) : Prop where
  new : ∀ line clients, P line (.new clients)
  longer : ∀ line more r, Numbered line → P line r → P (line ++ more) r
  buffer : ∀ line r q, P line r → P line { r with pending := r.pending ++ [q] }
  sanitize : ∀ line r, P line r → P line (r.sanitize c.clients c.pendingCapacity c.logCapacity)
  entry : ∀ (k : NodeId) (s : Agreement) (line : List AssignedRequest) (r r' : Record),
    Numbered line → (∀ j, P line (s.recordOf j)) → Entry (c.siteOf k) s r r' → P line r → P line r'
  change : ∀ (k : NodeId) (s : Agreement) (line given : List AssignedRequest) (r r' : Record),
    Numbered line → given ⊆ line → (∀ j, P line (s.recordOf j)) →
      Change (c.siteOf k) s given r r' → P line r → P line r'

namespace Upheld

variable {c : Cluster} {P : List AssignedRequest → Record → Prop} (upheld : Upheld c P)
  {k : NodeId} {s : Agreement} {line : List AssignedRequest} {r : Record}

include upheld

theorem recordOf (holds : ∀ r ∈ s.records, P line r) (j : NodeId) : P line (s.recordOf j) := by
  by_cases inTable : j < s.records.length
  · exact holds _ (Agreement.recordOf_mem inTable)
  · rw [Agreement.recordOf_eq_blank (Nat.le_of_not_lt inTable)]
    exact upheld.new line 0

theorem submit (holds : ∀ r ∈ s.records, P line r) (q : ClientRequest) :
    ∀ r ∈ ((s.submit (c.siteOf k) q).toOption.getD s).records, P line r := by
  rcases Agreement.submit_eq_or (c.siteOf k) s q with same | ⟨_, buffered⟩
  · rw [same]
    exact holds
  · rw [buffered]
    exact Agreement.forall_updateOwn holds (upheld.buffer line _ q)

theorem receive (holds : ∀ r ∈ s.records, P line r) (ofR : P line r) (sender : NodeId) :
    ∀ t ∈ (s.receive (c.siteOf k) sender r).records, P line t := by
  unfold Agreement.receive
  split
  · intro t member
    rcases List.mem_or_eq_of_mem_set member with old | rfl
    · exact holds t old
    · exact upheld.sanitize line r ofR
  · exact holds

theorem enterView (inTable : (c.siteOf k).me < s.records.length) (numbered : Numbered line)
    (holds : ∀ r ∈ s.records, P line r) (view : View) (primary : NodeId) :
    ∀ r ∈ (s.enterView (c.siteOf k) view primary).records, P line r :=
  (Agreement.reached_enterView inTable view primary).forall_records holds inTable
    fun r r' entry => upheld.entry k s line r r' numbered (upheld.recordOf holds) entry

/-- The line gets longer by what the round assigns. -/
theorem proceed (inTable : (c.siteOf k).me < s.records.length) {answers : Answers} {view : View}
    {primary : NodeId} (numbered : Numbered line)
    (longer : Numbered (line ++ s.proceedAssigns (c.siteOf k) answers view primary))
    (holds : ∀ r ∈ s.records, P line r) :
    ∀ r ∈ (s.proceed (c.siteOf k) answers view primary).1.records,
      P (line ++ s.proceedAssigns (c.siteOf k) answers view primary) r := by
  have wide := fun r member => upheld.longer line
    (s.proceedAssigns (c.siteOf k) answers view primary) r numbered (holds r member)
  exact (Agreement.reached_proceed inTable answers view primary).forall_records wide inTable
    fun r r' change => upheld.change k s _ _ r r' longer (List.subset_append_right ..)
      (upheld.recordOf wide) change

end Upheld

namespace Ensemble

variable {c : Cluster} {P : List AssignedRequest → Record → Prop} {v k : NodeId}
  {line : List AssignedRequest} {e : Ensemble} {s t : Agreement}

/-! ### Lines that get longer -/

section Longer

variable {Q : List AssignedRequest → Ensemble → Prop}

/-- Where all replicas keep to one view and no number comes close to the bound, an action does one
of four things, and only a round makes the line longer. -/
theorem act_longer {action : Action} (keeps : action.KeepsTo v)
    (small : ∀ m ∈ (e.act c action).sent, m.2.seqsBelow c.seqLimit = true) (holds : Q line e)
    (submitting : ∀ k s q, e.replicas[k]? = some s →
      Q line { e.put k ((s.submit (c.siteOf k) q).toOption.getD s) with
        submitted := e.submitted ++ [q] })
    (delivering : ∀ k s sender r, e.replicas[k]? = some s → (sender, r) ∈ e.sent →
      r.seqsBelow c.seqLimit = true → Q line (e.put k (s.receive (c.siteOf k) sender r)))
    (rounding : ∀ k s answers, e.replicas[k]? = some s →
      (answers.viewOf k = .tee ∨ answers.viewOf k = .id v) →
      ((s.round (c.siteOf k) answers).state.own (c.siteOf k)).seqsBelow c.seqLimit = true →
      Q (line ++ s.roundAssigns (c.siteOf k) answers)
        { e.put k (s.round (c.siteOf k) answers).state with
          sent := e.sent ++ [(k, (s.round (c.siteOf k) answers).state.own (c.siteOf k))]
          events := e.events ++ (s.round (c.siteOf k) answers).events.map fun event => (k, event)
          reigns := noteRound (c.siteOf k) answers s e.reigns })
    (asking : ∀ k s t function reply, e.replicas[k]? = some s → function ≠ .replicaFlush →
      s.call (c.siteOf k) function = .ok (reply, t) → Q line (e.put k t)) :
    ∃ more, Q (line ++ more) (e.act c action) := by
  have unchanged : ∀ {after : Ensemble}, Q line after → ∃ more, Q (line ++ more) after := by
    intro after same
    exact ⟨[], by rwa [List.append_nil]⟩
  have smallBefore : ∀ m ∈ e.sent, m.2.seqsBelow c.seqLimit = true :=
    fun m member => small m (sent_act member action)
  revert small
  apply act_cases (P := fun after => (∀ m ∈ after.sent, m.2.seqsBelow c.seqLimit = true) →
    ∃ more, Q (line ++ more) after) action
  · exact fun _ => unchanged holds
  · intro k s q _ found _
    exact unchanged (submitting k s q found)
  · intro k s sender r found wasSent _
    exact unchanged (delivering k s sender r found wasSent (smallBefore _ wasSent))
  · rintro k s answers rfl found small
    have isSmall := small _ (List.mem_append_right _ (List.mem_singleton_self _))
    exact ⟨_, rounding k s answers found keeps isSmall⟩
  · rintro k s t function reply rfl found answered _
    exact unchanged (asking k s t function reply found keeps answered)

/-- A run whose actions make a line longer leads to such a line. -/
theorem exists_line_run {actions : List Action} (base : Q [] (start c))
    (step : ∀ e line action, action.KeepsTo v →
      (∀ m ∈ (e.act c action).sent, m.2.seqsBelow c.seqLimit = true) → Q line e →
      ∃ more, Q (line ++ more) (e.act c action))
    (keeps : ∀ action ∈ actions, action.KeepsTo v)
    (small : ∀ m ∈ (run c actions).sent, m.2.seqsBelow c.seqLimit = true) :
    ∃ line, Q line (run c actions) := by
  -- What has been broadcast stays, so the bound belongs into the statement of the induction.
  have reachable : (∀ m ∈ (run c actions).sent, m.2.seqsBelow c.seqLimit = true) →
      ∃ line, Q line (run c actions) := by
    refine run_induction (P := fun e => (∀ m ∈ e.sent, m.2.seqsBelow c.seqLimit = true) →
      ∃ line, Q line e) (fun _ => ⟨[], base⟩) ?_ actions keeps
    intro e action keepsTo before smallAfter
    obtain ⟨line, holds⟩ := before fun m member => smallAfter m (sent_act member action)
    obtain ⟨more, after⟩ := step e line action keepsTo smallAfter holds
    exact ⟨line ++ more, after⟩
  exact reachable small

end Longer

/-! ### Upheld properties in a run -/

/-- The replicas stay in one view, and a property holds of all records that they hold or have
broadcast. -/
structure SteadyWith (c : Cluster) (P : List AssignedRequest → Record → Prop) (v : NodeId)
    (line : List AssignedRequest) (e : Ensemble) : Prop where
  steady : e.Steady c v line
  tables : ∀ (k : NodeId) (s : Agreement), e.replicas[k]? = some s → ∀ r ∈ s.records, P line r
  sent : ∀ m ∈ e.sent, P line m.2

theorem steadyWith_start (upheld : Upheld c P) (v : NodeId) : (start c).SteadyWith c P v [] where
  steady := steady_start c v
  tables := by
    intro k s found r member
    rw [replicas_start found] at member
    rw [List.eq_of_mem_replicate member]
    exact upheld.new _ _
  sent := by simp [start]

namespace SteadyWith

theorem submit (upheld : Upheld c P) (keeping : e.SteadyWith c P v line)
    (found : e.replicas[k]? = some s) (q : ClientRequest) :
    ({ e.put k ((s.submit (c.siteOf k) q).toOption.getD s) with
        submitted := e.submitted ++ [q] }).SteadyWith c P v line where
  steady := keeping.steady.put (List.subset_append_left ..) found
    (fun inView => inView.submit (List.mem_append_right _ (List.mem_singleton_self q)))
    fun below => below.submit q
  tables := forall_put keeping.tables (upheld.submit (keeping.tables k s found) q)
  sent := keeping.sent

theorem deliver (upheld : Upheld c P) (keeping : e.SteadyWith c P v line)
    (found : e.replicas[k]? = some s) {sender : NodeId} {r : Record}
    (wasSent : (sender, r) ∈ e.sent) (small : r.seqsBelow c.seqLimit = true) :
    (e.put k (s.receive (c.siteOf k) sender r)).SteadyWith c P v line where
  steady := keeping.steady.put (fun _ h => h) found
    (fun inView => inView.receive (keeping.steady.sent _ wasSent) sender)
    fun below => below.receive small sender
  tables := forall_put keeping.tables
    (upheld.receive (keeping.tables k s found) (keeping.sent _ wasSent) sender)
  sent := keeping.sent

theorem ask (keeping : e.SteadyWith c P v line) (found : e.replicas[k]? = some s)
    {function : Function} {reply : Reply} (notFlush : function ≠ .replicaFlush)
    (answered : s.call (c.siteOf k) function = .ok (reply, t)) :
    (e.put k t).SteadyWith c P v line := by
  have same := Agreement.records_call answered
  refine ⟨keeping.steady.put (fun _ h => h) found (fun inView => inView.call notFlush answered) ?_,
    forall_put keeping.tables ?_, keeping.sent⟩
  · intro below
    unfold Agreement.Below
    rw [same]
    exact below
  · rw [same]
    exact keeping.tables k s found

theorem round (configured : c.Configured) (enough : 3 * c.faults < c.size) (upheld : Upheld c P)
    (keeping : e.SteadyWith c P v line) (found : e.replicas[k]? = some s) {answers : Answers}
    (keeps : answers.viewOf k = .tee ∨ answers.viewOf k = .id v)
    (small : ((s.round (c.siteOf k) answers).state.own (c.siteOf k)).seqsBelow c.seqLimit = true)
    (reigns : List Reign) :
    ({ e.put k (s.round (c.siteOf k) answers).state with
        sent := e.sent ++ [(k, (s.round (c.siteOf k) answers).state.own (c.siteOf k))]
        events := e.events ++ (s.round (c.siteOf k) answers).events.map fun event => (k, event)
        reigns := reigns }).SteadyWith c P v (line ++ s.roundAssigns (c.siteOf k) answers) := by
  have steady := keeping.steady.round configured enough found keeps small reigns
  have inView := keeping.steady.inView k s found
  have numbered := inView.ofView.numbered
  have holds : ∀ r ∈ (s.round (c.siteOf k) answers).state.records,
      P (line ++ s.roundAssigns (c.siteOf k) answers) r := by
    have positive : 0 < c.seqLimit := Nat.zero_lt_of_lt (Record.seqsBelow_iff.mp small).1
    have inTable := inView.lawful.inTable
    have before := keeping.tables k s found
    have longer := steady.ofView.numbered
    rcases inView.lawful.round_cases configured enough inView.ofView
      (keeping.steady.below positive k s found) inView.quiet keeps with
      ⟨same, nothing, _⟩ | ⟨after, given, _⟩
    · rw [same, nothing, List.append_nil]
      exact before
    · rw [given] at longer
      rw [after, given]
      have inEntered := (Agreement.reached_enterView inTable (.id v) v).inTable inTable
      exact upheld.proceed inEntered numbered longer
        (upheld.enterView inTable numbered before (.id v) v)
  exact
    { steady := steady
      tables := forall_put (fun j t foundJ r member =>
        upheld.longer _ _ r numbered (keeping.tables j t foundJ r member)) holds
      sent := by
        intro m member
        rcases List.mem_append.mp member with old | new
        · exact upheld.longer _ _ _ numbered (keeping.sent m old)
        · rw [List.mem_singleton.mp new]
          exact upheld.recordOf holds k }

/-- An action keeps the property, and only a round can make the line longer. -/
theorem act (configured : c.Configured) (enough : 3 * c.faults < c.size) (upheld : Upheld c P)
    (keeping : e.SteadyWith c P v line) {action : Action} (keeps : action.KeepsTo v)
    (small : ∀ m ∈ (e.act c action).sent, m.2.seqsBelow c.seqLimit = true) :
    ∃ more, (e.act c action).SteadyWith c P v (line ++ more) := by
  refine act_longer keeps small keeping ?_ ?_ ?_ ?_
  · intro k s q found
    exact keeping.submit upheld found q
  · intro k s sender r found wasSent isSmall
    exact keeping.deliver upheld found wasSent isSmall
  · intro k s answers found keeps isSmall
    exact keeping.round configured enough upheld found keeps isSmall _
  · intro k s t function reply found notFlush answered
    exact keeping.ask found notFlush answered

end SteadyWith

/-- In a run in which all replicas are told one view, or none, and no number comes close to the
bound, what is upheld holds of all records. -/
theorem steadyWith_run (configured : c.Configured) (enough : 3 * c.faults < c.size)
    (upheld : Upheld c P) {actions : List Action} (keeps : ∀ action ∈ actions, action.KeepsTo v)
    (small : ∀ m ∈ (run c actions).sent, m.2.seqsBelow c.seqLimit = true) :
    ∃ line, (run c actions).SteadyWith c P v line :=
  exists_line_run (steadyWith_start upheld v)
    (fun _ _ _ keeps small keeping => keeping.act configured enough upheld keeps small) keeps small

end Ensemble

end QuorumList
