import QuorumList.Proofs.Vigil

/-!
Accusations.

In each round monitoring says of the view that establishment reports whether it wants a change, and
it wants one when detection finds the primary suspected.  But detection means the primary that it
tracks itself, and this is the one that establishment reported when the last token came.  So a
suspicion of one primary is held against the next, until a token comes in the new view.
-/
namespace QuorumList

namespace Detection

variable {site : Site} {s : Detection} {answers : Answers} {sender : NodeId}

/-- How many processes are recorded as suspecting exactly this view, this process included. -/
def accusers (site : Site) (view : View) (s : Detection) : Nat :=
  site.cluster.nodes.countP fun k => s.suspects k && s.tracked.getD k .tee = view

theorem suspected_iff :
    s.suspected site = true ↔
      s.view ≠ .tee ∧ site.cluster.adoptQuorum ≤ s.accusers site s.view := by
  have defined : s.view.isTee = false ↔ s.view ≠ .tee := by
    cases s.view <;> simp [View.isTee]
  simp only [suspected, accusers, Bool.and_eq_true, Bool.not_eq_true', decide_eq_true_eq, defined]

/-- Nobody is recorded as suspecting two views. -/
theorem accusers_add_accusers_le (s : Detection) (site : Site) {v w : View} (different : v ≠ w) :
    s.accusers site v + s.accusers site w ≤ site.cluster.size := by
  have nobody : (site.cluster.nodes.countP fun k =>
      (s.suspects k && s.tracked.getD k .tee = v) &&
        (s.suspects k && s.tracked.getD k .tee = w)) = 0 := by
    refine List.countP_eq_zero.mpr fun k _ both => different ?_
    simp only [Bool.and_eq_true, decide_eq_true_eq] at both
    exact both.1.2.symm.trans both.2.2
  have overlap := countP_add_countP_le (fun k => s.suspects k && s.tracked.getD k .tee = v)
    (fun k => s.suspects k && s.tracked.getD k .tee = w) site.cluster.nodes
  rw [nobody, Nat.zero_add, Cluster.nodes, List.length_range] at overlap
  exact overlap

/-- At a token of a peer, and only then, detection comes to track what establishment reports. -/
theorem view_onToken :
    (s.onToken site answers sender).view =
      if site.isPeer sender then answers.viewOf site.me else s.view := by
  refine onToken_cases (P := fun t => t.view = if site.isPeer sender then _ else s.view)
    (fun other => by simp [other]) (fun other => by simp [other]) (fun peer => ?_)
    (fun peer told => ?_) fun primary peer told _ => ?_
  · rw [if_pos peer]
    exact view_trackView
  · rw [if_pos peer, view_trackView, told]
  · rw [if_pos peer, view_followPrimary, view_trackView, told]

end Detection

namespace Monitoring

variable {site : Site} {s : Monitoring}

theorem own_setOwn (inTable : site.me < s.opinions.length) (o : Opinion) :
    (s.setOwn site o).own site = o := by
  simp [own, opinionOf, setOwn, inTable]

theorem length_opinions_round :
    (s.round site answers).state.opinions.length = s.opinions.length := by
  simp [round, formOpinion, setOwn]

theorem length_opinions_receive {sender : NodeId} {o : Opinion} :
    (s.receive site sender o).opinions.length = s.opinions.length := by
  unfold receive
  split <;> simp

/-- After a round the own opinion is about the reported view, and it wants a change if detection
suspects the primary. -/
theorem own_round (answers : Answers) (inTable : site.me < s.opinions.length) :
    ((s.round site answers).state.own site).view = answers.viewOf site.me ∧
      ((s.round site answers).state.own site).wantsChange = answers.suspected := by
  have inFormed : site.me < (s.formOpinion site answers).opinions.length := by
    simpa [formOpinion, setOwn] using inTable
  unfold round
  dsimp only
  rw [own_setOwn inFormed, formOpinion, own_setOwn inTable]
  refine ⟨?_, rfl⟩
  dsimp only
  split
  · next same => exact same
  · rfl

end Monitoring

namespace Node

variable {node : Node} {w : Watch}

/-- In this action a token of a peer comes. -/
def hearsToken (node : Node) : Action → Bool
  | .dispatch message => message.kind.isToken && node.site.isPeer message.sender
  | .hear link text =>
      match Message.decode text with
      | .ok message =>
          message.sender = link && message.kind.isToken && node.site.isPeer message.sender
      | .error _ => false
  | _ => false

/-- The view that establishment reported when the last token of a peer came, if any came in these
actions. -/
def heardView (node : Node) (heard : View) : List Action → View
  | [] => heard
  | action :: rest =>
      (node.act action).heardView
        (if node.hearsToken action then node.answers.viewOf node.site.me else heard) rest

/-- A round of another component leaves the watch alone. -/
theorem Keeping.round_other (keeping : node.Keeping w) {component : Component}
    (other : component ≠ .monitoring) : (node.round component).1.Keeping w := by
  cases component with
  | monitoring => exact absurd rfl other
  | establishment =>
      unfold round
      dsimp only
      split
      · exact keeping
      · refine Keeping.settle ?_ _ _
        exact ⟨keeping.detection, keeping.monitoring⟩
  | agreement =>
      unfold round
      dsimp only
      split
      · exact keeping
      · refine Keeping.settle ?_ _ _
        exact ⟨keeping.detection, keeping.monitoring⟩
  | detection =>
      unfold round
      dsimp only
      split
      · exact keeping
      · split <;> exact keeping

theorem Keeping.submit (keeping : node.Keeping w) (q : ClientRequest) :
    (node.submit q).1.Keeping w := by
  unfold Node.submit
  split
  · exact ⟨keeping.detection, keeping.monitoring⟩
  · split <;> exact ⟨keeping.detection, keeping.monitoring⟩

/-- The process keeps this watch, with an opinion for each process. -/
structure Watching (node : Node) (w : Watch) : Prop where
  keeping : node.Keeping w
  opinions : w.monitoring.opinions.length = node.site.cluster.size

namespace Watching

theorem new (site : Site) : (Node.new site).Watching (.new site) :=
  ⟨⟨rfl, rfl⟩, List.length_replicate⟩

theorem dispatch (watching : node.Watching w) (message : Message) :
    ∃ w', (node.dispatch message).Watching w' ∧
      w'.detection.view =
        if message.kind.isToken && node.site.isPeer message.sender then
          node.answers.viewOf node.site.me
        else w.detection.view := by
  refine ⟨w.hear node.site node.answers message, ⟨watching.keeping.dispatch message, ?_⟩, ?_⟩
  · rw [(Keeps.dispatch node message).site, ← watching.opinions]
    unfold Watch.hear
    cases message.payload <;> dsimp only <;> split <;>
      simp [Watch.onToken, Watch.receive, Monitoring.length_opinions_receive]
  · unfold Watch.hear
    cases token : message.kind.isToken with
    | false => 
        cases message.payload <;> simp [Watch.receive, (Detection.own_receive _).2]
    | true =>
        cases message.payload <;>
          simp [Watch.onToken, Watch.receive, (Detection.own_receive _).2, Detection.view_onToken]

/-- What a process tracks changes only when a token of a peer comes. -/
theorem act (watching : node.Watching w) (action : Action) :
    ∃ w', (node.act action).Watching w' ∧
      w'.detection.view =
        if node.hearsToken action then node.answers.viewOf node.site.me else w.detection.view := by
  have unchanged {after : Node} (keeping : after.Keeping w) (same : after.site = node.site) :
      after.Watching w :=
    ⟨keeping, by rw [same]; exact watching.opinions⟩
  cases action with
  | run component =>
      by_cases monitors : component = .monitoring
      · subst monitors
        refine ⟨_, ⟨watching.keeping.monitor.2.1, ?_⟩, rfl⟩
        rw [Watch.monitor, Monitoring.length_opinions_round]
        rw [watching.opinions, ← site_act node (.run .monitoring), Node.act]
      · have kept := watching.keeping.round_other monitors
        exact ⟨w, unchanged kept (site_act node (.run component)), rfl⟩
  | submit q => exact ⟨w, unchanged (watching.keeping.submit q) (site_act node (.submit q)), rfl⟩
  | dispatch message => exact watching.dispatch message
  | hear link text =>
      have counted (events : List Event) : (node.count events).Watching w :=
        ⟨⟨watching.keeping.detection, watching.keeping.monitoring⟩, watching.opinions⟩
      cases read : Message.decode text with
      | error reason =>
          have deaf : node.hearsToken (.hear link text) = false := by simp [hearsToken, read]
          rw [if_neg (by simp [deaf])]
          refine ⟨w, ?_, rfl⟩
          simp only [Node.act, onMessage, read]
          exact counted _
      | ok message =>
          have hears : node.hearsToken (.hear link text) =
              (message.sender = link && message.kind.isToken &&
                node.site.isPeer message.sender) := by
            simp [hearsToken, read]
          simp only [Node.act, onMessage, read, hears]
          split
          · next refused =>
              refine ⟨w, counted _, (if_neg ?_).symm⟩
              simp only [Bool.and_eq_true, decide_eq_true_eq, Site.isPeer_iff]
              rintro ⟨⟨rfl, -⟩, -, inRange⟩
              rcases refused with notMine | outside
              · exact notMine rfl
              · exact Nat.not_le_of_lt inRange outside
          · next taken =>
              obtain ⟨w', watching', view⟩ := (counted [.messageReceived]).dispatch message
              refine ⟨w', watching', view.trans ?_⟩
              simp only [not_or, not_not] at taken
              simp only [taken.1, decide_true, Bool.true_and]
              rfl

theorem runs (watching : node.Watching w) (actions : List Action) :
    ∃ w', (node.runs actions).Watching w' ∧
      w'.detection.view = node.heardView w.detection.view actions := by
  induction actions generalizing node w with
  | nil => exact ⟨w, watching, rfl⟩
  | cons action rest ih =>
      obtain ⟨w', watching', view⟩ := watching.act action
      obtain ⟨w'', watching'', view'⟩ := ih watching'
      refine ⟨w'', watching'', ?_⟩
      rw [view', view]
      rfl

end Watching

/-- After each round of monitoring, the opinion of a process is about the view that establishment
reports; but it wants a change exactly if an adopting quorum is recorded as suspecting the view that
establishment reported when the last token of a peer came.  While these are the same view, the
accused primary is the suspected one.  While they differ, its accusers are too few, unless the
cluster has room for two adopting quorums. -/
theorem accuses_iff_heard_suspected {site : Site} (inCluster : site.me < site.cluster.size)
    (actions : List Action) :
    let node := (Node.new site).runs actions
    let heard := (Node.new site).heardView .tee actions
    ∃ m d, (node.act (.run .monitoring)).monitoring = some m ∧
      (node.act (.run .monitoring)).detection = some d ∧
      (m.own site).view = node.answers.viewOf site.me ∧
      ((m.own site).wantsChange = true ↔
        heard ≠ .tee ∧ site.cluster.adoptQuorum ≤ d.accusers site heard) ∧
      ∀ primary, (m.own site).view = .id primary → (m.own site).wantsChange = true →
        (heard = .id primary → site.cluster.adoptQuorum ≤ d.accusers site (.id primary)) ∧
        (site.cluster.adoptQuorum ≤ d.accusers site (.id primary) →
          heard = .id primary ∨ 6 * site.cluster.faults + 2 ≤ site.cluster.size) := by
  intro node heard
  have same : node.site = site := site_runs (.new site) actions
  obtain ⟨w, watching, view⟩ := (Watching.new site).runs actions
  have tracks : w.detection.view = heard := view
  have inTable : node.site.me < w.monitoring.opinions.length := by
    rw [watching.opinions, same]
    exact inCluster
  obtain ⟨-, keeps, -⟩ := watching.keeping.monitor
  obtain ⟨about, wants⟩ :=
    Monitoring.own_round { node.answers with suspected := w.detection.suspected node.site } inTable
  rw [same] at about wants keeps
  have accuses : w.detection.suspected site = true ↔
      heard ≠ .tee ∧ site.cluster.adoptQuorum ≤ w.detection.accusers site heard := by
    rw [Detection.suspected_iff, tracks]
  refine ⟨_, w.detection, keeps.monitoring, keeps.detection, about, ?_, fun primary _ change => ?_⟩
  · exact (Bool.coe_iff_coe.mpr wants).trans accuses
  · obtain ⟨-, quorum⟩ := accuses.mp (wants.symm.trans change)
    refine ⟨fun sameView => sameView ▸ quorum, fun accused => ?_⟩
    by_cases sameView : heard = .id primary
    · exact .inl sameView
    · right
      have few := w.detection.accusers_add_accusers_le site sameView
      rw [Cluster.adoptQuorum] at quorum accused
      omega

/-- The last of six processes, of which one may be faulty. -/
def lastOfSix : Site :=
  { me := 5, cluster := .new 6 1, switches := .none }

/-- The five others announce a stance, and echo one. -/
def announced (stance echo : Stance) : List Action :=
  (List.range 5).map fun k =>
    .dispatch (.broadcast k (.establishment { stance := stance, echo := echo }))

/-- Four processes suspect the first primary, and then all processes leave its view. -/
def succession : List Action :=
  announced (.steadyIn 0) (.steadyIn 0) ++
    [1, 2, 3, 4].map (fun k =>
      .dispatch (.broadcast k (.detection { view := .id 0, suspected := true }))) ++
    announced (.leaving 6 0) (.steadyIn 0) ++ [.run .establishment] ++
    announced (.steadyIn 1) (.leaving 6 0) ++ [.run .establishment] ++
    announced (.steadyIn 1) (.steadyIn 1)

/-- Every token came in the first view. -/
theorem last_of_six_accuses_iff_heard_suspected :
    lastOfSix.me < lastOfSix.cluster.size ∧ (Node.new lastOfSix).heardView .tee succession = .id 0 ∧
      ∃ m d,
        (((Node.new lastOfSix).runs succession).act (.run .monitoring)).monitoring = some m ∧
        (((Node.new lastOfSix).runs succession).act (.run .monitoring)).detection = some d ∧
        ((m.own lastOfSix).wantsChange = true ↔ 4 ≤ d.accusers lastOfSix (.id 0)) := by
  have inCluster : lastOfSix.me < lastOfSix.cluster.size := by decide
  have heard : (Node.new lastOfSix).heardView .tee succession = .id 0 := by decide +kernel
  obtain ⟨m, d, monitoring, detection, -, accuses, -⟩ :=
    accuses_iff_heard_suspected inCluster succession
  refine ⟨inCluster, heard, m, d, monitoring, detection, accuses.trans ?_⟩
  rw [heard]
  exact ⟨And.right, fun quorum => ⟨by decide, quorum⟩⟩

/-- The second primary is accused in its first round, though nobody is recorded as suspecting it:
the four suspicions are about the first one. -/
theorem second_primary_accused :
    ∃ m d,
      (((Node.new lastOfSix).runs succession).act (.run .monitoring)).monitoring = some m ∧
      (((Node.new lastOfSix).runs succession).act (.run .monitoring)).detection = some d ∧
      (m.own lastOfSix).view = .id 1 ∧ (m.own lastOfSix).wantsChange = true ∧
      d.accusers lastOfSix (.id 1) = 0 ∧ d.accusers lastOfSix (.id 0) = 4 ∧
      lastOfSix.cluster.adoptQuorum = 4 := by
  have opinion :
      ((((Node.new lastOfSix).runs succession).act (.run .monitoring)).monitoring.map fun m =>
        ((m.own lastOfSix).view, (m.own lastOfSix).wantsChange)) = some (.id 1, true) := by
    decide +kernel
  have suspicion :
      ((((Node.new lastOfSix).runs succession).act (.run .monitoring)).detection.map fun d =>
        (d.accusers lastOfSix (.id 1), d.accusers lastOfSix (.id 0))) = some (0, 4) := by
    decide +kernel
  obtain ⟨m, monitoring, told⟩ := Option.map_eq_some_iff.mp opinion
  obtain ⟨d, detection, counted⟩ := Option.map_eq_some_iff.mp suspicion
  rw [Prod.mk.injEq] at told counted
  exact ⟨m, d, monitoring, detection, told.1, told.2, counted.1, counted.2, rfl⟩

end Node

end QuorumList
