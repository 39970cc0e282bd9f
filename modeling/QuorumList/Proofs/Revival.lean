import QuorumList.Proofs.Assembly

/-!
Starting from what a process has shown.

A process of an assembly that starts afresh from what it showed is in the same state again, except
for detection and for a queue beyond its bound.  Detection takes all recorded suspicions to be about
its own view.  If they are, or if there is no view, the difference never matters; and if one of them
is about an earlier view, it may suspect the primary at once.
-/
namespace QuorumList

open Json

namespace Detection

/-! ### Detectors that cannot be told apart -/

/-- Something that comes to a detector. -/
inductive Input where
  | token (sender : NodeId) (answers : Answers)
  | suspicion (sender : NodeId) (m : Suspicion)

/-- What an input makes of a detector. -/
def react (site : Site) (s : Detection) : Input → Detection
  | .token sender answers => s.onToken site answers sender
  | .suspicion sender m => s.receive site sender m

/-- What a sequence of inputs makes of a detector. -/
def reacts (site : Site) (s : Detection) (inputs : List Input) : Detection :=
  inputs.foldl (react site) s

/-- Whatever comes, both detectors answer and broadcast the same. -/
def BehavesLike (site : Site) (t s : Detection) : Prop :=
  ∀ inputs answers,
    (t.reacts site inputs).suspected site = (s.reacts site inputs).suspected site ∧
      (t.reacts site inputs).broadcast site answers = (s.reacts site inputs).broadcast site answers

/-- Every recorded suspicion is about the own view, or there is none. -/
def UpToDate (s : Detection) : Prop :=
  s.view = .tee ∨ ∀ k, s.suspects k = true → s.tracked.getD k .tee = s.view

/-- A token of another process comes. -/
def Input.isPeerToken (site : Site) : Input → Bool
  | .token sender _ => site.isPeer sender
  | .suspicion .. => false

/-- The detectors agree on everything but who is responsive, and on what suspicions are about only
as far as it matters. -/
structure Resembles (t s : Detection) : Prop where
  beats : t.beats = s.beats
  stalled : t.stalled = s.stalled
  suspicions : t.suspicions = s.suspicions
  watched : t.watched = s.watched
  view : t.view = s.view
  length : t.tracked.length = s.tracked.length
  about : s.view = .tee ∨
    ∀ k, s.suspects k = true → (t.tracked.getD k .tee = s.view ↔ s.tracked.getD k .tee = s.view)

variable {site : Site} {s t : Detection} {answers : Answers} {k : NodeId} {view : View}

/-! ### Who is responsive -/

@[simp] theorem responsive_clear : s.clear.responsive = s.responsive :=
  rfl

@[simp] theorem responsive_trackView : (s.trackView view).responsive = s.responsive := by
  unfold trackView
  split <;> rfl

@[simp] theorem responsive_checkProgress {pending : List ClientRequest} :
    (s.checkProgress pending).responsive = s.responsive := by
  unfold checkProgress
  split <;> rfl

@[simp] theorem responsive_followPrimary {sender primary : NodeId} :
    (s.followPrimary site answers sender primary).responsive = s.responsive := by
  unfold followPrimary
  dsimp only
  split
  · rfl
  · split
    · exact responsive_checkProgress
    · rfl

/-- Only tokens of peers tell who is responsive. -/
theorem responsive_onToken {sender : NodeId} :
    (s.onToken site answers sender).responsive =
      if site.isPeer sender then (s.ageBeats site sender).responsive else s.responsive := by
  refine onToken_cases
    (P := fun t => t.responsive = if site.isPeer sender then _ else s.responsive)
    (fun other => by simp [other]) (fun other => by simp [other]) (fun peer => ?_)
    (fun peer _ => ?_) fun _ peer _ _ => ?_
  all_goals simp [peer]

@[simp] theorem responsive_receive {sender : NodeId} {m : Suspicion} :
    (s.receive site sender m).responsive = s.responsive := by
  unfold receive
  split <;> rfl

/-! ### Detectors that resemble each other -/

theorem getD_set_of_ne {α : Type} {l : List α} {j k : Nat} {a d : α} (other : k ≠ j) :
    (l.set j a).getD k d = l.getD k d := by
  simp [List.getD_eq_getElem?_getD, List.getElem?_set_ne (Ne.symm other)]

namespace Resembles

theorem suspects (alike : t.Resembles s) (k : NodeId) : t.suspects k = s.suspects k := by
  rw [Detection.suspects, Detection.suspects, alike.suspicions]

theorem suspected (alike : t.Resembles s) : t.suspected site = s.suspected site := by
  unfold Detection.suspected
  rw [alike.view]
  rcases alike.about with undefined | about
  · rw [undefined]
    rfl
  · congr 2
    refine congrArg (site.cluster.adoptQuorum ≤ ·) (List.countP_congr fun k _ => ?_)
    simp only [alike.suspects, Bool.and_eq_true, decide_eq_true_eq]
    exact and_congr_right (about k)

theorem broadcast (alike : t.Resembles s) (answers : Answers) :
    t.broadcast site answers = s.broadcast site answers := by
  rw [Detection.broadcast, Detection.broadcast, alike.view, alike.suspects]

theorem clear (alike : t.Resembles s) : t.clear.Resembles s.clear where
  beats := alike.beats
  stalled := rfl
  suspicions := congrArg (List.map fun _ => false) alike.suspicions
  watched := rfl
  view := alike.view
  length := alike.length
  about := .inr fun _ suspects => absurd (suspects_clear.symm.trans suspects) Bool.false_ne_true

theorem trackView (alike : t.Resembles s) (view : View) :
    (t.trackView view).Resembles (s.trackView view) := by
  unfold Detection.trackView
  rw [alike.view]
  split
  · exact alike
  · exact { alike.clear with
      view := rfl
      about := .inr fun _ suspects =>
        absurd (suspects_clear.symm.trans suspects) Bool.false_ne_true }

/-- After a token of a peer the same processes are responsive. -/
theorem ageBeats (alike : t.Resembles s) (site : Site) (sender : NodeId) :
    (t.ageBeats site sender).Resembles (s.ageBeats site sender) ∧
      (t.ageBeats site sender).responsive = (s.ageBeats site sender).responsive := by
  unfold Detection.ageBeats
  rw [alike.beats]
  exact ⟨⟨rfl, alike.stalled, alike.suspicions, alike.watched, alike.view, alike.length,
    alike.about⟩, rfl⟩

theorem checkProgress (alike : t.Resembles s) (pending : List ClientRequest) :
    (t.checkProgress pending).Resembles (s.checkProgress pending) := by
  unfold Detection.checkProgress
  rw [alike.watched]
  split
  · exact { alike with stalled := rfl, watched := rfl }
  · exact { alike with stalled := congrArg nextBeat alike.stalled, watched := rfl }

/-- What is recorded anew is recorded in both. -/
theorem record (alike : t.Resembles s) (j : NodeId) (view : View) (suspicions : List Bool)
    (others : ∀ k, k ≠ j → suspicions.getD k false = s.suspects k) :
    ({ t with suspicions := suspicions, tracked := t.tracked.set j view } : Detection).Resembles
      { s with suspicions := suspicions, tracked := s.tracked.set j view } := by
  refine { alike with suspicions := rfl, length := by simp [alike.length], about := ?_ }
  refine alike.about.imp_right fun about k suspects => ?_
  simp only [List.getD_eq_getElem?_getD, List.getElem?_set]
  by_cases same : j = k
  · simp only [if_pos same, alike.length]
  · simp only [if_neg same]
    have before : s.suspects k = true := (others k (Ne.symm same)).symm.trans suspects
    simpa only [List.getD_eq_getElem?_getD] using about k before

theorem judge (alike : t.Resembles s) (responsive : t.responsive = s.responsive)
    (primary : NodeId) : (t.judge site primary).Resembles (s.judge site primary) := by
  unfold Detection.judge
  dsimp only
  rw [alike.stalled, alike.suspicions, alike.view, responsive]
  generalize (!s.responsive.contains primary || decide (site.cluster.threshold < s.stalled)) =
    guilty
  have recorded := alike.record site.me s.view
    (if guilty then s.suspicions.set site.me true else s.suspicions) fun k other => by
      split
      · exact getD_set_of_ne other
      · rfl
  exact { recorded with stalled := rfl, view := rfl }

theorem receive (alike : t.Resembles s) (sender : NodeId) (m : Suspicion) :
    (t.receive site sender m).Resembles (s.receive site sender m) := by
  unfold Detection.receive
  rw [alike.suspicions]
  split
  · exact alike.record _ _ _ fun k other => getD_set_of_ne other
  · exact alike

theorem followPrimary (alike : t.Resembles s) (responsive : t.responsive = s.responsive)
    (answers : Answers) (sender primary : NodeId) :
    (t.followPrimary site answers sender primary).Resembles
      (s.followPrimary site answers sender primary) := by
  unfold Detection.followPrimary
  dsimp only
  split
  · have restarted : ({ t with stalled := 0 } : Detection).Resembles { s with stalled := 0 } :=
      { alike with stalled := rfl }
    exact restarted.judge responsive _
  · split
    · exact (alike.checkProgress _).judge (by simpa using responsive) _
    · exact alike.judge responsive _

/-- Both detectors go the same way, as this depends on the sender and on the answers only. -/
theorem onToken (alike : t.Resembles s) (answers : Answers) (sender : NodeId) :
    (t.onToken site answers sender).Resembles (s.onToken site answers sender) := by
  obtain ⟨aged, responsive⟩ := alike.ageBeats site sender
  have tracked := aged.trackView (answers.viewOf site.me)
  unfold Detection.onToken
  split
  · exact { alike with beats := congrArg (List.set · site.me 0) alike.beats }
  · split
    · exact alike
    · dsimp only
      split
      · exact tracked.clear
      · split
        · exact tracked
        · exact tracked.followPrimary (by simpa using responsive) ..

theorem react (alike : t.Resembles s) (input : Input) :
    (t.react site input).Resembles (s.react site input) := by
  cases input with
  | token sender answers => exact alike.onToken answers sender
  | suspicion sender m => exact alike.receive sender m

theorem responsive_react (alike : t.Resembles s) {input : Input}
    (known : t.responsive = s.responsive ∨ input.isPeerToken site = true) :
    (t.react site input).responsive = (s.react site input).responsive := by
  cases input with
  | token sender answers =>
      simp only [Detection.react, responsive_onToken]
      split
      · exact (alike.ageBeats site sender).2
      · next stranger => exact known.resolve_right stranger
  | suspicion sender m =>
      simp only [Detection.react, responsive_receive]
      exact known.resolve_right Bool.false_ne_true

/-- Nobody can tell the detectors apart, and from the next token of a peer on they show the same. -/
theorem reacts (alike : t.Resembles s) (site : Site) (inputs : List Input) :
    (t.reacts site inputs).Resembles (s.reacts site inputs) ∧
      (t.responsive = s.responsive ∨ (∃ input ∈ inputs, input.isPeerToken site = true) →
        (t.reacts site inputs).responsive = (s.reacts site inputs).responsive) := by
  induction inputs generalizing s t with
  | nil => exact ⟨alike, fun known => known.resolve_right nofun⟩
  | cons input rest ih =>
      obtain ⟨later, shown⟩ := ih (alike.react input)
      refine ⟨later, fun known => shown ?_⟩
      rcases known with same | ⟨token, member, ofPeer⟩
      · exact .inl (alike.responsive_react (.inl same))
      · rcases List.mem_cons.mp member with rfl | inRest
        · exact .inl (alike.responsive_react (.inr ofPeer))
        · exact .inr ⟨token, inRest, ofPeer⟩

theorem toJson (alike : t.Resembles s) (responsive : t.responsive = s.responsive) :
    t.toJson = s.toJson := by
  simp only [Detection.toJson, alike.beats, alike.stalled, alike.watched, responsive, alike.view,
    alike.suspicions]

/-- A detector that has been revived resembles the former one, if that was up to date. -/
theorem revived (fits : s.Writable site) (upToDate : s.UpToDate) :
    (s.revived site).Resembles s := by
  refine ⟨rfl, rfl, rfl, rfl, rfl, List.length_replicate.trans fits.tracked.symm, ?_⟩
  refine upToDate.imp_right fun about k suspects => ?_
  have inTable : k < site.cluster.size := by
    by_contra outside
    rw [Detection.suspects, List.getD_eq_getElem?_getD,
      List.getElem?_eq_none (fits.suspicions ▸ Nat.le_of_not_lt outside)] at suspects
    contradiction
  have now : (s.revived site).tracked.getD k .tee = s.view := by
    simp [Detection.revived, inTable]
  exact iff_of_true now (about k suspects)

end Resembles

end Detection

namespace Agreement

variable {site : Site} {s : Agreement}

/-- The state with the own queue cut to its bound. -/
def cutQueue (site : Site) (s : Agreement) : Agreement :=
  s.updateOwn site fun r => { r with queue := r.queue.take site.cluster.logCapacity }

/-- Of a regular table only the own queue can be cut. -/
theorem Regular.cut_eq (regular : s.Regular site) : s.cut site = s.cutQueue site := by
  have records : s.records.map (sanitizeRecord site) = s.records.modify site.me fun r =>
      { r with queue := r.queue.take site.cluster.logCapacity } := by
    refine List.ext_getElem (by simp) fun j inMap _ => ?_
    have inTable : j < s.records.length := by simpa using inMap
    have isRecord : s.records[j] = s.recordOf j := by simp [recordOf, inTable]
    have cut : sanitizeRecord site (s.recordOf j) = _ :=
      (regular.records j (regular.length ▸ inTable)).sanitize_eq
    rw [List.getElem_map, List.getElem_modify, isRecord, cut]
    split
    · rfl
    · next other =>
        rw [List.take_of_length_le (regular.queues j (Ne.symm other))]
  rw [cut, records]
  rfl

theorem cutQueue_eq_self (fits : (s.own site).queue.length ≤ site.cluster.logCapacity) :
    s.cutQueue site = s := by
  refine updateOwn_self ?_
  rw [List.take_of_length_le fits]

end Agreement

namespace Assembly

variable {c : Cluster} {k : NodeId} {node : Node}

/-- A process of a run is revived with its former states, but for detection and for a queue beyond
its bound. -/
theorem Sound.revive {e : Assembly} (sound : e.Sound c) (few : c.size ≤ maxSigned + 1)
    (found : e.nodes[k]? = some node) :
    ∃ v a m d, node.Complete v a m d ∧ d.Writable node.site ∧
      node.revive =
        .ok
          { site := node.site
            establishment := some v
            agreement := some (a.cutQueue node.site)
            monitoring := some m
            detection := some (d.revived node.site)
            metrics := .zero } := by
  have fits : node.site.me ≤ maxUnsigned := by
    rw [sound.site k node found]
    exact Nat.le_trans (Nat.le_of_lt (sound.inRange found)) (Nat.le_trans few (by decide))
  have portable := sound.portable k node found
  obtain ⟨v, hasV, forV⟩ := portable.establishment
  obtain ⟨a, hasA, forA⟩ := portable.agreement
  obtain ⟨m, hasM, forM⟩ := portable.monitoring
  obtain ⟨d, hasD, forD⟩ := portable.detection
  have complete : node.Complete v a m d := ⟨hasV, hasA, hasM, hasD⟩
  refine ⟨v, a, m, d, complete, forD, ?_⟩
  rw [Node.revive_eq complete forV forA.writable forM forD fits, forA.cut_eq]

/-- In every run of a cluster, a process that starts afresh from what it has shown has the former
state of view establishment and of primary monitoring, and that of agreement but for a queue beyond
its bound.  Its detector behaves like the former one, if every recorded suspicion was about the own
view, and then shows the same from the next token of a peer on. -/
theorem revived_behaves_like_former (few : c.size ≤ maxSigned + 1) (actions : List Action)
    (admissible : ∀ action ∈ actions, action.Admissible)
    (found : (run c actions).nodes[k]? = some node) :
    ∃ v a m d, node.Complete v a m d ∧ ∃ after, node.revive = .ok after ∧
      after.site = node.site ∧ after.establishment = some v ∧ after.monitoring = some m ∧
      after.agreement = some (a.cutQueue node.site) ∧
      ((a.own node.site).queue.length ≤ c.logCapacity → after.agreement = some a) ∧
      after.detection = some (d.revived node.site) ∧
      (d.UpToDate → (d.revived node.site).BehavesLike node.site d ∧
        ∀ inputs, (∃ input ∈ inputs, input.isPeerToken node.site = true) →
          ((d.revived node.site).reacts node.site inputs).toJson =
            (d.reacts node.site inputs).toJson) := by
  have sound := sound_run few actions admissible
  obtain ⟨v, a, m, d, complete, forD, revived⟩ := sound.revive few found
  refine ⟨v, a, m, d, complete, _, revived, rfl, rfl, rfl, rfl, fun short => ?_, rfl,
    fun upToDate => ?_⟩
  · refine congrArg some (Agreement.cutQueue_eq_self ?_)
    rw [sound.site k node found] at short ⊢
    exact short
  · have alike := Detection.Resembles.revived forD upToDate
    refine ⟨fun inputs answers => ?_, fun inputs token => ?_⟩
    · have later := (alike.reacts node.site inputs).1
      exact ⟨later.suspected, later.broadcast answers⟩
    · obtain ⟨later, shown⟩ := alike.reacts node.site inputs
      exact later.toJson (shown (.inr token))

/-- Two processes that suspect a primary once it has missed an occasion to make progress. -/
def pairOfProcesses : Cluster :=
  (Cluster.new 2 0).withThreshold 0

/-- A request waits at the second process while two tokens of the first one come. -/
def suspicion : List Action :=
  [ .submit 1 { client := 0, timestamp := 1, operation := .append 1 }, .run 0 .detection,
    .run 0 .detection, .deliver 1 0, .deliver 1 1 ]

theorem admissible_suspicion : ∀ action ∈ suspicion, action.Admissible := by
  have argument : (Operation.append 1).Writable := ⟨by decide, by decide⟩
  simp only [suspicion, List.forall_mem_cons, Action.Admissible, true_and]
  exact ⟨⟨Nat.zero_le _, by decide, argument⟩, by simp⟩

/-- The detector of the second process then. -/
def suspecting : Detection :=
  { beats := [0, 0]
    stalled := 1
    suspicions := [false, true]
    tracked := [.tee, .id 0]
    watched := [{ client := 0, timestamp := 1, operation := .append 1 }]
    responsive := .ofList [0, 1]
    view := .id 0 }

theorem upToDate_suspecting : suspecting.UpToDate := by
  right
  intro k suspects
  match k with
  | 0 => exact absurd suspects Bool.false_ne_true
  | 1 => rfl
  | _ + 2 => exact absurd suspects Bool.false_ne_true

/-- The second process suspects the first one, and does so when it is revived. -/
theorem suspicious_process_revived :
    pairOfProcesses.size ≤ maxSigned + 1 ∧ (∀ action ∈ suspicion, action.Admissible) ∧
      ∃ node after d, (run pairOfProcesses suspicion).nodes[1]? = some node ∧
        node.detection = some d ∧ d.UpToDate ∧ d.suspected node.site = true ∧
        node.revive = .ok after ∧ after.detection = some (d.revived node.site) ∧
        (d.revived node.site).BehavesLike node.site d := by
  have few : pairOfProcesses.size ≤ maxSigned + 1 := by decide
  have held : (run pairOfProcesses suspicion).nodes[1]?.map (fun node => node.detection) =
      some (some suspecting) := by
    rw [run_eq few _ admissible_suspicion]
    decide +kernel
  obtain ⟨node, found, detection⟩ := Option.map_eq_some_iff.mp held
  obtain ⟨v, a, m, d, complete, after, revived, -, -, -, -, -, same, behaves⟩ :=
    revived_behaves_like_former few suspicion admissible_suspicion found
  have site := (sound_run few _ admissible_suspicion).site 1 node found
  obtain rfl := Option.some.inj (complete.detection.symm.trans detection)
  exact ⟨few, admissible_suspicion, node, after, _, found, detection, upToDate_suspecting,
    by rw [site]; decide, revived, same, (behaves upToDate_suspecting).1⟩

/-- The processes change to the next view.  Before the second one has heard a token there, it tells
the first one of its suspicion, which is still about the former view. -/
def belatedSuspicion : List Action :=
  suspicion ++
    [ .run 1 .monitoring, .run 1 .establishment, .deliver 0 2, .deliver 0 3, .run 0 .establishment,
      .deliver 1 4, .run 1 .establishment, .run 1 .detection, .deliver 0 5, .run 0 .establishment,
      .deliver 0 6 ]

theorem admissible_belatedSuspicion : ∀ action ∈ belatedSuspicion, action.Admissible := by
  rw [belatedSuspicion, List.forall_mem_append]
  exact ⟨admissible_suspicion, by simp [Action.Admissible]⟩

/-- The detector of the first process then: it has left the view of the suspicion. -/
def outdated : Detection :=
  { beats := [0, 0]
    stalled := 0
    suspicions := [false, true]
    tracked := [.id 1, .id 0]
    watched := []
    responsive := .ofList [0, 1]
    view := .id 1 }

/-- The first process does not suspect the primary of its view, and when it is revived it does. -/
theorem belated_suspicion_counts_when_revived :
    (∀ action ∈ belatedSuspicion, action.Admissible) ∧
      ∃ node after, (run pairOfProcesses belatedSuspicion).nodes[0]? = some node ∧
        node.revive = .ok after ∧ node.answers.suspected = false ∧
        after.answers.suspected = true := by
  have few : pairOfProcesses.size ≤ maxSigned + 1 := by decide
  have held : (run pairOfProcesses belatedSuspicion).nodes[0]?.map (fun node => node.detection) =
      some (some outdated) := by
    rw [run_eq few _ admissible_belatedSuspicion]
    decide +kernel
  obtain ⟨node, found, detection⟩ := Option.map_eq_some_iff.mp held
  have sound := sound_run few _ admissible_belatedSuspicion
  have site := sound.site 0 node found
  obtain ⟨v, a, m, d, complete, -, revived⟩ := sound.revive few found
  obtain rfl := Option.some.inj (complete.detection.symm.trans detection)
  refine ⟨admissible_belatedSuspicion, node, _, found, revived, ?_, ?_⟩
  · simp only [Node.answers, detection, site]
    decide
  · simp only [Node.answers, site]
    decide

end Assembly

end QuorumList
