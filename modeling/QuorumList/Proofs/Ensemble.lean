import QuorumList.Proofs.Provenance

/-!
Ensembles of replicas.

An ensemble runs the agreement of several processes.  Anything may happen at any time: a client
submits a request somewhere, a replica runs a round with whatever view it is told, another component
calls it, or a record that was broadcast at some time arrives somewhere else.  So records may arrive
late, more than once, out of order, or never.

Besides the replicas an ensemble keeps what has happened so far: what was broadcast, submitted and
counted, and for each time that a primary led a view, the requests it assigned.
-/
namespace QuorumList

/-- A process of a cluster without any switches. -/
def Cluster.siteOf (c : Cluster) (k : NodeId) : Site :=
  { me := k, cluster := c, switches := .none }

/-- The time from which a primary leads a view until it leads the next one. -/
structure Reign where
  leader : NodeId
  /-- The last number that the leader had executed when it took over. -/
  start : Nat
  /-- The requests it has assigned, in the order of their numbers. -/
  assigned : List AssignedRequest
deriving DecidableEq, Repr

/-- The replicas of a cluster and what has happened to them. -/
structure Ensemble where
  replicas : List Agreement
  /-- The records that were broadcast and their senders, oldest first. -/
  sent : List (NodeId × Record)
  submitted : List ClientRequest
  events : List (NodeId × Event)
  /-- The reigns, latest first. -/
  reigns : List Reign
deriving Repr

namespace Ensemble

/-- Something that happens in an ensemble. -/
inductive Action where
  | submit (k : NodeId) (q : ClientRequest)
  /-- A record that was broadcast earlier arrives. -/
  | deliver (receiver : NodeId) (index : Nat)
  /-- A replica runs a round, and broadcasts its record. -/
  | round (k : NodeId) (answers : Answers)
  | ask (k : NodeId) (function : Function)

/-- The answers when everybody is reported to be in a view, and nothing else is known. -/
def reporting (view : NodeId) : Answers :=
  { Answers.unavailable with viewOf := fun _ => .id view }

def start (c : Cluster) : Ensemble :=
  { replicas := c.nodes.map fun k => .new (c.siteOf k)
    sent := []
    submitted := []
    events := []
    reigns := [] }

def put (k : NodeId) (s : Agreement) (e : Ensemble) : Ensemble :=
  { e with replicas := e.replicas.set k s }

/-- The latest reign of a primary gets more requests. -/
def extendReign (k : NodeId) (given : List AssignedRequest) : List Reign → List Reign
  | [] => []
  | g :: earlier =>
      if g.leader = k then { g with assigned := g.assigned ++ given } :: earlier
      else g :: extendReign k given earlier

/-- The reigns after a round: it may begin one, and it may assign requests. -/
def noteRound (site : Site) (answers : Answers) (s : Agreement) (reigns : List Reign) :
    List Reign :=
  extendReign site.me (s.roundAssigns site answers)
    (if s.roundLeads site answers then
      { leader := site.me, start := s.roundStart site, assigned := [] } :: reigns
    else reigns)

/-- What an action makes of an ensemble. -/
def act (c : Cluster) (e : Ensemble) : Action → Ensemble
  | .submit k q =>
      match e.replicas[k]? with
      | none => e
      | some s =>
          { e.put k ((s.submit (c.siteOf k) q).toOption.getD s) with
            submitted := e.submitted ++ [q] }
  | .deliver receiver index =>
      match e.replicas[receiver]?, e.sent[index]? with
      | some s, some (sender, r) => e.put receiver (s.receive (c.siteOf receiver) sender r)
      | _, _ => e
  | .round k answers =>
      match e.replicas[k]? with
      | none => e
      | some s =>
          let outcome := s.round (c.siteOf k) answers
          { e.put k outcome.state with
            sent := e.sent ++ [(k, outcome.state.own (c.siteOf k))]
            events := e.events ++ outcome.events.map fun event => (k, event)
            reigns := noteRound (c.siteOf k) answers s e.reigns }
  | .ask k function =>
      match e.replicas[k]? with
      | none => e
      | some s =>
          match s.call (c.siteOf k) function with
          | .ok (_, s) => e.put k s
          | .error _ => e

/-- What a sequence of actions makes of a fresh ensemble. -/
def run (c : Cluster) (actions : List Action) : Ensemble :=
  actions.foldl (act c) (start c)

/-- What holds at the start and is kept by every action of some kind holds after all runs of such
actions. -/
theorem run_induction {c : Cluster} {P : Ensemble → Prop} {kind : Action → Prop}
    (base : P (start c)) (step : ∀ e action, kind action → P e → P (e.act c action))
    (actions : List Action) (ofKind : ∀ action ∈ actions, kind action) : P (run c actions) :=
  List.foldlRecOn _ _ base fun e holds action member => step e action (ofKind action member) holds

theorem run_append_singleton (c : Cluster) (actions : List Action) (action : Action) :
    run c (actions ++ [action]) = (run c actions).act c action := by
  rw [run, List.foldl_append]
  rfl

/-! ### Replicas -/

variable {c : Cluster} {e : Ensemble} {k j : NodeId} {s t : Agreement}

theorem replicas_start (found : (start c).replicas[k]? = some s) : s = .new (c.siteOf k) := by
  simp only [start, Cluster.nodes, List.getElem?_map, Option.map_eq_some_iff] at found
  obtain ⟨j, listed, rfl⟩ := found
  obtain ⟨_, rfl⟩ := List.getElem?_eq_some_iff.mp listed
  simp

theorem replicas_put_self (found : e.replicas[k]? = some s) (t : Agreement) :
    (e.put k t).replicas[k]? = some t :=
  List.getElem?_set_self (List.getElem?_eq_some_iff.mp found).1

/-- After replacing a replica there is the new one, and the others are as before. -/
theorem replicas_put (found : (e.put k s).replicas[j]? = some t) :
    (j = k ∧ t = s) ∨ (j ≠ k ∧ e.replicas[j]? = some t) := by
  rw [put, List.getElem?_set] at found
  by_cases same : k = j
  · rw [if_pos same] at found
    split at found
    · exact .inl ⟨same.symm, (Option.some.inj found).symm⟩
    · contradiction
  · rw [if_neg same] at found
    exact .inr ⟨Ne.symm same, found⟩

/-- What is true of every replica is still true when the one that an action concerns has changed. -/
theorem forall_put {P : NodeId → Agreement → Prop}
    (all : ∀ j t, e.replicas[j]? = some t → P j t) (changed : P k s) :
    ∀ j t, (e.put k s).replicas[j]? = some t → P j t := by
  intro j t found
  rcases replicas_put found with ⟨rfl, rfl⟩ | ⟨_, before⟩
  · exact changed
  · exact all j t before

/-- What an action can make of an ensemble: it changes nothing, or it changes one replica. -/
theorem act_cases {P : Ensemble → Prop} (action : Action) (nothing : P e)
    (submitting : ∀ k s q, action = .submit k q → e.replicas[k]? = some s →
      P { e.put k ((s.submit (c.siteOf k) q).toOption.getD s) with
          submitted := e.submitted ++ [q] })
    (delivering : ∀ k s sender r, e.replicas[k]? = some s → (sender, r) ∈ e.sent →
      P (e.put k (s.receive (c.siteOf k) sender r)))
    (rounding : ∀ k s answers, action = .round k answers → e.replicas[k]? = some s →
      P { e.put k (s.round (c.siteOf k) answers).state with
          sent := e.sent ++ [(k, (s.round (c.siteOf k) answers).state.own (c.siteOf k))]
          events := e.events ++ (s.round (c.siteOf k) answers).events.map fun event => (k, event)
          reigns := noteRound (c.siteOf k) answers s e.reigns })
    (asking : ∀ k s t function reply, action = .ask k function → e.replicas[k]? = some s →
      s.call (c.siteOf k) function = .ok (reply, t) → P (e.put k t)) :
    P (e.act c action) := by
  cases action with
  | submit k q =>
      rw [act]
      split
      · exact nothing
      · next s found => exact submitting k s q rfl found
  | deliver receiver index =>
      rw [act]
      split
      · next s sender r found arrived =>
          exact delivering receiver s sender r found (List.mem_of_getElem? arrived)
      · exact nothing
  | round k answers =>
      rw [act]
      split
      · exact nothing
      · next s found => exact rounding k s answers rfl found
  | ask k function =>
      rw [act]
      split
      · exact nothing
      · next s found =>
          split
          · next reply t answered => exact asking k s t function reply rfl found answered
          · exact nothing

theorem length_replicas_act (e : Ensemble) (action : Action) :
    (e.act c action).replicas.length = e.replicas.length :=
  act_cases (P := fun after => after.replicas.length = e.replicas.length) action rfl
    (by simp [put]) (by simp [put]) (by simp [put]) (by simp [put])

/-- The records that were broadcast stay. -/
theorem sent_act {m : NodeId × Record} (member : m ∈ e.sent) (action : Action) :
    m ∈ (e.act c action).sent := by
  apply act_cases (P := fun after => m ∈ after.sent) action member
  · intro k s q _ _
    exact member
  · intro k s sender r _ _
    exact member
  · intro k s answers _ _
    exact List.mem_append_left _ member
  · intro k s t function reply _ _ _
    exact member

theorem count_events_act (x : NodeId × Event) (action : Action) :
    e.events.count x ≤ (e.act c action).events.count x := by
  apply act_cases (P := fun after => e.events.count x ≤ after.events.count x) action (Nat.le_refl _)
  · intro k s q _ _
    exact Nat.le_refl _
  · intro k s sender r _ _
    exact Nat.le_refl _
  · intro k s answers _ _
    dsimp only
    rw [List.count_append]
    exact Nat.le_add_right ..
  · intro k s t function reply _ _ _
    exact Nat.le_refl _

/-! ### Sizes -/

/-- Every replica is a process of the cluster and has a record of each process. -/
def Sized (c : Cluster) (e : Ensemble) : Prop :=
  ∀ k s, e.replicas[k]? = some s → k < c.size ∧ s.records.length = c.size

theorem sized_start (c : Cluster) : (start c).Sized c := by
  intro k s found
  obtain rfl := replicas_start found
  have inRange := (List.getElem?_eq_some_iff.mp found).1
  simp only [start, Cluster.nodes, List.length_map, List.length_range] at inRange
  exact ⟨inRange, by simp [Agreement.new, Cluster.siteOf]⟩

theorem Sized.inTable (sized : e.Sized c) (found : e.replicas[k]? = some s) :
    (c.siteOf k).me < s.records.length := by
  obtain ⟨inRange, length⟩ := sized k s found
  rw [length]
  exact inRange

theorem Sized.act (sized : e.Sized c) (action : Action) : (e.act c action).Sized c := by
  have changed : ∀ k s t, e.replicas[k]? = some s → t.records.length = s.records.length →
      (e.put k t).Sized c := by
    intro k s t found same
    refine forall_put sized ⟨(sized k s found).1, ?_⟩
    rw [same]
    exact (sized k s found).2
  apply act_cases (P := fun after => after.Sized c) action sized
  · intro k s q _ found
    refine changed k s _ found ?_
    rcases Agreement.submit_eq_or (c.siteOf k) s q with same | ⟨_, buffered⟩
    · rw [same]
    · rw [buffered, Agreement.length_records_updateOwn]
  · intro k s sender r found _
    exact changed k s _ found (Agreement.length_records_receive ..)
  · intro k s answers _ found
    exact changed k s _ found (Agreement.length_records_round _)
  · intro k s t function reply _ found answered
    exact changed k s t found (by rw [Agreement.records_call answered])

end Ensemble

end QuorumList
