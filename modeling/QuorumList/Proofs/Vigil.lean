import Mathlib.Data.List.Induction
import QuorumList.Proofs.CommonHistory
import QuorumList.Proofs.Ensemble
import QuorumList.Proofs.Restart

/-!
Vigils.

Whether a primary is deposed is decided by two components of each process: failure detection, which
suspects the primary, and primary monitoring, which asks for a view change.  A vigil runs both for
all processes of a cluster.  Tokens come at any time, with any answers from the other components;
what a process broadcasts arrives anywhere, late, repeatedly or never; and a faulty process may say
anything to anybody.

A process keeps the last suspicion it heard from each other process, together with the primary that
the suspicion was about, and counts only those about the primary that it tracks itself.  So whatever
a correct process contributes to such a count, it has once suspected that very primary.
-/
namespace QuorumList

namespace Detection

variable {site : Site} {s : Detection} {answers : Answers} {sender k : NodeId} {view : View}

/-! ### What tokens and messages change -/

@[simp] theorem suspects_clear : s.clear.suspects k = false := by
  simp only [suspects, clear, List.getD_eq_getElem?_getD, List.getElem?_map]
  cases s.suspicions[k]? <;> rfl

@[simp] theorem length_suspicions_clear : s.clear.suspicions.length = s.suspicions.length := by
  simp [clear]

/-- What may come of a token. -/
theorem onToken_cases {P : Detection → Prop}
    (itself : site.isPeer sender = false → P { s with beats := s.beats.set site.me 0 })
    (stranger : site.isPeer sender = false → P s)
    (refused : site.isPeer sender = true →
      P ((s.ageBeats site sender).trackView (answers.viewOf site.me)).clear)
    (undefined : site.isPeer sender = true → answers.viewOf site.me = .tee →
      P ((s.ageBeats site sender).trackView .tee))
    (follows : ∀ primary, site.isPeer sender = true → answers.viewOf site.me = .id primary →
      answers.serviceAllowed = true →
        P (((s.ageBeats site sender).trackView (.id primary)).followPrimary site answers sender
          primary)) :
    P (s.onToken site answers sender) := by
  unfold onToken
  split
  · next same => exact itself (Bool.eq_false_iff.mpr fun peer => (Site.isPeer_iff.mp peer).1 same)
  · next other =>
      split
      · next outside =>
          refine stranger (Bool.eq_false_iff.mpr fun peer => ?_)
          exact Nat.not_lt.mpr outside (Site.isPeer_iff.mp peer).2
      · next inside =>
          have peer := Site.isPeer_iff.mpr ⟨other, Nat.lt_of_not_le inside⟩
          dsimp only
          split
          · exact refused peer
          · next allowed =>
              cases told : answers.viewOf site.me with
              | tee => exact undefined peer told
              | id primary => exact follows primary peer told (by simpa using allowed)

/-- A table of all processes for each of the two things that processes report. -/
structure Sized (site : Site) (s : Detection) : Prop where
  member : site.me < site.cluster.size
  suspicions : s.suspicions.length = site.cluster.size
  tracked : s.tracked.length = site.cluster.size

/-- What is said about processes other than this one is kept or forgotten. -/
structure Forgets (site : Site) (s t : Detection) : Prop where
  suspicions : t.suspicions.length = s.suspicions.length
  tracked : t.tracked.length = s.tracked.length
  suspects : ∀ k, k ≠ site.me → t.suspects k = true → s.suspects k = true
  about : ∀ k, k ≠ site.me → t.tracked.getD k .tee = s.tracked.getD k .tee

namespace Forgets

theorem of_eq {t : Detection} (suspicions : t.suspicions = s.suspicions)
    (tracked : t.tracked = s.tracked) : s.Forgets site t :=
  ⟨congrArg List.length suspicions, congrArg List.length tracked,
    fun k _ => by simp [Detection.suspects, suspicions], fun k _ => by rw [tracked]⟩

theorem trans {t u : Detection} (first : s.Forgets site t) (second : t.Forgets site u) :
    s.Forgets site u :=
  ⟨second.suspicions.trans first.suspicions, second.tracked.trans first.tracked,
    fun k other suspects => first.suspects k other (second.suspects k other suspects),
    fun k other => (second.about k other).trans (first.about k other)⟩

theorem clear (site : Site) (s : Detection) : s.Forgets site s.clear :=
  ⟨length_suspicions_clear, rfl, fun _ _ suspects => by simp at suspects, fun _ _ => rfl⟩

theorem trackView (site : Site) (s : Detection) (view : View) :
    s.Forgets site (s.trackView view) := by
  unfold Detection.trackView
  split
  · exact of_eq rfl rfl
  · exact (clear site s).trans (of_eq rfl rfl)

theorem judge (site : Site) (s : Detection) (primary : NodeId) :
    s.Forgets site (s.judge site primary) := by
  unfold Detection.judge
  refine ⟨?_, by simp, fun k other suspects => ?_, fun k other => ?_⟩
  · dsimp only
    split <;> simp
  · dsimp only [Detection.suspects] at suspects
    split at suspects
    · simpa [List.getD_eq_getElem?_getD, Ne.symm other, Detection.suspects] using suspects
    · exact suspects
  · simp [List.getD_eq_getElem?_getD, Ne.symm other]

theorem followPrimary (site : Site) (s : Detection) (answers : Answers) (sender primary : NodeId) :
    s.Forgets site (s.followPrimary site answers sender primary) := by
  have progress : s.Forgets site (s.checkProgress answers.pending) := by
    unfold checkProgress
    split <;> exact of_eq rfl rfl
  unfold Detection.followPrimary
  refine .trans ?_ (judge site _ primary)
  split
  · exact of_eq rfl rfl
  · split
    · exact progress
    · exact of_eq rfl rfl

/-- A token changes what is said about no process but this one, except that it may be forgotten. -/
theorem onToken (site : Site) (s : Detection) (answers : Answers) (sender : NodeId) :
    s.Forgets site (s.onToken site answers sender) := by
  have aged (view : View) : s.Forgets site ((s.ageBeats site sender).trackView view) :=
    .trans (t := s.ageBeats site sender) (of_eq rfl rfl) (trackView site _ view)
  exact onToken_cases (fun _ => of_eq rfl rfl) (fun _ => of_eq rfl rfl)
    (fun _ => (aged _).trans (clear site _)) (fun _ _ => aged _)
    fun _ _ _ _ => (aged _).trans (followPrimary ..)

end Forgets

theorem Sized.onToken (sized : s.Sized site) (answers : Answers) (sender : NodeId) :
    (s.onToken site answers sender).Sized site :=
  have forgets := Forgets.onToken site s answers sender
  ⟨sized.member, forgets.suspicions.trans sized.suspicions, forgets.tracked.trans sized.tracked⟩

theorem Sized.receive (sized : s.Sized site) (sender : NodeId) (m : Suspicion) :
    (s.receive site sender m).Sized site := by
  unfold Detection.receive
  split
  · exact ⟨sized.member, by simpa using sized.suspicions, by simpa using sized.tracked⟩
  · exact sized

/-- If a process is held to suspect its primary after a message, then it says so in this message, or
was held to before. -/
theorem suspects_receive {m : Suspicion} (sized : s.Sized site)
    (suspects : (s.receive site sender m).suspects k = true) :
    (k = sender ∧ k ≠ site.me ∧ m.suspected = true ∧
        (s.receive site sender m).tracked.getD k .tee = m.view) ∨
      s.suspects k = true ∧
        (s.receive site sender m).tracked.getD k .tee = s.tracked.getD k .tee := by
  unfold Detection.receive at suspects ⊢
  split
  · next peer =>
      rw [if_pos peer] at suspects
      obtain ⟨another, inRange⟩ := Site.isPeer_iff.mp peer
      by_cases same : k = sender
      · subst same
        have told : k < s.suspicions.length := sized.suspicions ▸ inRange
        have tracked : k < s.tracked.length := sized.tracked ▸ inRange
        refine .inl ⟨rfl, another, ?_, by simp [List.getD_eq_getElem?_getD, tracked]⟩
        simpa [Detection.suspects, List.getD_eq_getElem?_getD, told] using suspects
      · right
        simpa [Detection.suspects, List.getD_eq_getElem?_getD, List.getElem?_set, Ne.symm same]
          using suspects
  · next unheard =>
      rw [if_neg unheard] at suspects
      exact .inr ⟨suspects, rfl⟩

/-- Messages change neither the own suspicion nor the view. -/
theorem own_receive (m : Suspicion) :
    (s.receive site sender m).suspects site.me = s.suspects site.me ∧
      (s.receive site sender m).view = s.view := by
  unfold Detection.receive
  split
  · next peer =>
      have another := (Site.isPeer_iff.mp peer).1
      exact ⟨by simp [Detection.suspects, List.getD_eq_getElem?_getD, another], rfl⟩
  · exact ⟨rfl, rfl⟩

/-- At this token the process sets its own entry while it tracks a view: the entry is set after the
token, and was not set before, or in another view. -/
structure ComesToSuspect (site : Site) (answers : Answers) (sender : NodeId) (view : View)
    (s : Detection) : Prop where
  after : (s.onToken site answers sender).suspects site.me = true
  inView : (s.onToken site answers sender).view = view
  before : ¬ (s.suspects site.me = true ∧ s.view = view)

/-- A view that is tracked anew is suspected by nobody. -/
theorem of_suspects_trackView (suspects : (s.trackView view).suspects k = true) :
    s.suspects k = true ∧ s.view = view := by
  unfold trackView at suspects
  split at suspects
  · next same => exact ⟨suspects, same.symm⟩
  · have forgotten : ({ s.clear with view := view } : Detection).suspects k = false :=
      suspects_clear
    rw [forgotten] at suspects
    contradiction

/-- The primary is silent, or makes no progress. -/
def Guilty (site : Site) (primary : NodeId) (s : Detection) : Prop :=
  s.responsive.contains primary = false ∨ site.cluster.threshold < s.stalled

theorem of_suspects_followPrimary {primary : NodeId}
    (suspects : (s.followPrimary site answers sender primary).suspects site.me = true) :
    s.suspects site.me = true ∨
      (s.followPrimary site answers sender primary).Guilty site primary := by
  by_cases guilty : (s.followPrimary site answers sender primary).Guilty site primary
  · exact .inr guilty
  · left
    simp only [Guilty, followPrimary, judge, not_or, Bool.not_eq_false, Nat.not_lt] at guilty
    have innocent : ∀ t : Detection, t.responsive.contains primary = true →
        t.stalled ≤ site.cluster.threshold →
        (!t.responsive.contains primary || decide (site.cluster.threshold < t.stalled)) =
          false := by
      intro t answering progress
      simp [answering, Nat.not_lt.mpr progress]
    rw [followPrimary, judge, Detection.suspects] at suspects
    dsimp only at suspects
    rw [innocent _ guilty.1 guilty.2] at suspects
    simp only [Bool.false_eq_true, if_false] at suspects
    revert suspects
    unfold checkProgress
    repeat' split
    all_goals exact id

theorem view_followPrimary {primary : NodeId} :
    (s.followPrimary site answers sender primary).view = s.view := by
  unfold followPrimary judge checkProgress
  repeat' split
  all_goals rfl

theorem view_trackView : (s.trackView view).view = view := by
  unfold trackView
  split
  · next same => exact same.symm
  · rfl

/-- A process comes to suspect only the primary that it is told at this token, while service is
allowed, and finds it silent or without progress. -/
theorem ComesToSuspect.guilty (suspects : s.ComesToSuspect site answers sender view) :
    ∃ primary, view = .id primary ∧ answers.viewOf site.me = .id primary ∧
      answers.serviceAllowed = true ∧ (s.onToken site answers sender).Guilty site primary := by
  obtain ⟨after, inView, before⟩ := suspects
  have fresh : ∀ told, told = view →
      ((s.ageBeats site sender).trackView told).suspects site.me = false := by
    rintro told rfl
    exact Bool.eq_false_iff.mpr fun suspects =>
      before (of_suspects_trackView (s := s.ageBeats site sender) suspects)
  revert after inView
  refine onToken_cases (P := fun t => t.suspects site.me = true → t.view = view →
      ∃ primary, view = .id primary ∧ answers.viewOf site.me = .id primary ∧
        answers.serviceAllowed = true ∧ t.Guilty site primary)
    (fun _ after inView => absurd ⟨after, inView⟩ before)
    (fun _ after inView => absurd ⟨after, inView⟩ before) (fun _ after _ => ?_)
    (fun _ _ after inView => ?_) fun primary _ told allowed after inView => ?_
  · rw [suspects_clear] at after
    contradiction
  · rw [fresh .tee (view_trackView.symm.trans inView)] at after
    contradiction
  · rw [view_followPrimary, view_trackView] at inView
    refine ⟨primary, inView.symm, told, allowed, ?_⟩
    rcases of_suspects_followPrimary after with already | guilty
    · rw [fresh _ inView] at already
      contradiction
    · exact guilty

end Detection

/-- A process asks for a view change only if its own detector suspects the primary. -/
theorem Monitoring.suspected_of_viewChange {s : Monitoring} {site : Site} {answers : Answers}
    (asks : .viewChange ∈ (s.round site answers).directives) : answers.suspected = true := by
  unfold round at asks
  dsimp only at asks
  split at asks
  · next change =>
      unfold assess at change
      split at change
      · next supported =>
          simp only [Bool.and_eq_true] at supported
          exact supported.2
      · split at change <;> contradiction
  · contradiction

/-! ### Watches -/

/-- The two components of a process that watch its primary. -/
structure Watch where
  detection : Detection
  monitoring : Monitoring
deriving DecidableEq, Repr

/-- What a process says about its primary. -/
inductive Remark where
  | suspicion (m : Suspicion)
  | opinion (o : Opinion)
deriving DecidableEq, Repr

namespace Watch

def new (site : Site) : Watch :=
  { detection := .new site, monitoring := .new site }

/-- A token of some process arrives. -/
def onToken (site : Site) (answers : Answers) (sender : NodeId) (w : Watch) : Watch :=
  { w with detection := w.detection.onToken site answers sender }

/-- Keep what another process broadcast. -/
def receive (site : Site) (sender : NodeId) (w : Watch) : Remark → Watch
  | .suspicion m => { w with detection := w.detection.receive site sender m }
  | .opinion o => { w with monitoring := w.monitoring.receive site sender o }

/-- A round of monitoring, which asks detection whether the primary is suspected. -/
def monitor (site : Site) (answers : Answers) (w : Watch) : Outcome Monitoring :=
  w.monitoring.round site { answers with suspected := w.detection.suspected site }

/-- A message arrives: it may be a token, and it may hold a remark. -/
def hear (site : Site) (answers : Answers) (message : Message) (w : Watch) : Watch :=
  let w := if message.kind.isToken then w.onToken site answers message.sender else w
  match message.payload with
  | .monitoring o => w.receive site message.sender (.opinion o)
  | .detection m => w.receive site message.sender (.suspicion m)
  | _ => w

end Watch

namespace Node

/-- The process keeps this watch. -/
structure Keeping (node : Node) (w : Watch) : Prop where
  detection : node.detection = some w.detection
  monitoring : node.monitoring = some w.monitoring

namespace Keeping

variable {node : Node} {w : Watch}

theorem dispatch (keeping : node.Keeping w) (message : Message) :
    (node.dispatch message).Keeping (w.hear node.site node.answers message) := by
  obtain ⟨detection, monitoring⟩ := keeping
  unfold Node.dispatch Watch.hear
  dsimp only
  by_cases token : message.kind.isToken = true
  · rw [if_pos token, if_pos token]
    cases message.payload <;>
      exact ⟨by simp [Watch.onToken, Watch.receive, detection],
        by simp [Watch.onToken, Watch.receive, monitoring]⟩
  · rw [if_neg token, if_neg token]
    cases message.payload <;>
      exact ⟨by simp [Watch.receive, detection], by simp [Watch.receive, monitoring]⟩

theorem settle (keeping : node.Keeping w) (directives : List Directive) (events : List Event) :
    (node.settle directives events).Keeping w := by
  have directed : (directives.foldl Node.direct node).Keeping w := by
    refine List.foldlRecOn (motive := (Node.Keeping · w)) _ _ keeping
      fun node keeping d _ => ?_
    obtain ⟨detection, monitoring⟩ := keeping
    cases d with
    | viewChange =>
        rw [direct_viewChange]
        split <;> exact ⟨detection, monitoring⟩
    | replicaFlush =>
        rw [direct_replicaFlush]
        exact ⟨detection, monitoring⟩
    | requestReset =>
        rw [direct_requestReset]
        exact ⟨detection, monitoring⟩
  exact ⟨directed.detection, directed.monitoring⟩

/-- A process that runs a round of monitoring learns from its own detector whether the primary is
suspected, carries out what the round asks for, and broadcasts its opinion. -/
theorem monitor (keeping : node.Keeping w) :
    let outcome := w.monitor node.site node.answers
    (node.round .monitoring).1 =
        { node with monitoring := some outcome.state }.settle
          outcome.directives outcome.events ∧
      (node.round .monitoring).1.Keeping { w with monitoring := outcome.state } ∧
      (node.round .monitoring).2 =
        [.broadcast node.site.me (.monitoring (outcome.state.own node.site))] := by
  have asked : w.monitor node.site node.answers = w.monitoring.round node.site node.answers := by
    simp [Watch.monitor, answers, keeping.detection]
  rw [asked]
  simp only [round, keeping.monitoring]
  refine ⟨trivial, ?_, trivial⟩
  refine settle ?_ _ _
  exact ⟨keeping.detection, rfl⟩

end Keeping

end Node

/-- The watches of all processes of a cluster, and what was broadcast, oldest first. -/
structure Vigil where
  watches : List Watch
  sent : List (NodeId × Remark)
deriving Repr

namespace Vigil

/-- Something that happens in a vigil. -/
inductive Action where
  /-- A token arrives. -/
  | token (receiver sender : NodeId) (answers : Answers)
  /-- Detection runs a round, and broadcasts its suspicion. -/
  | report (k : NodeId) (answers : Answers)
  /-- Monitoring runs a round, and broadcasts its opinion. -/
  | monitor (k : NodeId) (answers : Answers)
  /-- Something that was broadcast arrives. -/
  | deliver (receiver : NodeId) (index : Nat)
  /-- Something arrives that nobody need have sent. -/
  | forge (receiver sender : NodeId) (m : Remark)

/-- Only faulty processes say what they like. -/
def Action.Admits (faulty : NodeId → Bool) : Action → Prop
  | .forge _ sender _ => faulty sender = true
  | _ => True

instance (faulty : NodeId → Bool) : DecidablePred (Action.Admits faulty)
  | .forge _ sender _ => inferInstanceAs (Decidable (faulty sender = true))
  | .token .. | .report .. | .monitor .. | .deliver .. => .isTrue trivial

def start (c : Cluster) : Vigil :=
  { watches := c.nodes.map fun k => .new (c.siteOf k)
    sent := [] }

/-- Something changes a watch. -/
def change (k : NodeId) (f : Watch → Watch) (e : Vigil) : Vigil :=
  { e with watches := e.watches.modify k f }

/-- What a process broadcasts when detection runs a round. -/
def reported (c : Cluster) (k : NodeId) (answers : Answers) (w : Watch) :
    List (NodeId × Remark) :=
  ((w.detection.broadcast (c.siteOf k) answers).map fun m => (k, .suspicion m)).toList

/-- What an action makes of a vigil. -/
def act (c : Cluster) (e : Vigil) : Action → Vigil
  | .token receiver sender answers =>
      e.change receiver (Watch.onToken (c.siteOf receiver) answers sender)
  | .report k answers =>
      match e.watches[k]? with
      | none => e
      | some w => { e with sent := e.sent ++ reported c k answers w }
  | .monitor k answers =>
      match e.watches[k]? with
      | none => e
      | some w =>
          let s := (w.monitor (c.siteOf k) answers).state
          { e.change k fun w => { w with monitoring := s } with
            sent := e.sent ++ [(k, .opinion (s.own (c.siteOf k)))] }
  | .deliver receiver index =>
      match e.sent[index]? with
      | none => e
      | some (sender, m) => e.change receiver fun w => w.receive (c.siteOf receiver) sender m
  | .forge receiver sender m => e.change receiver fun w => w.receive (c.siteOf receiver) sender m

/-- What a sequence of actions makes of a fresh vigil. -/
def run (c : Cluster) (actions : List Action) : Vigil :=
  actions.foldl (act c) (start c)

/-- In this run there is a token at which a process sets its own entry while it tracks a view. -/
def CameToSuspect (c : Cluster) (k : NodeId) (view : View) (actions : List Action) : Prop :=
  ∃ early sender answers late w, actions = early ++ .token k sender answers :: late ∧
    (run c early).watches[k]? = some w ∧
      w.detection.ComesToSuspect (c.siteOf k) answers sender view

variable {c : Cluster} {e : Vigil} {faulty : NodeId → Bool} {actions : List Action} {k j : NodeId}
  {w : Watch} {view : View}

theorem CameToSuspect.later (came : CameToSuspect c k view actions) (action : Action) :
    CameToSuspect c k view (actions ++ [action]) := by
  obtain ⟨early, sender, answers, late, w, rfl, found, comes⟩ := came
  exact ⟨early, sender, answers, late ++ [action], w, by simp, found, comes⟩

theorem watches_change {f : Watch → Watch} (found : (e.change k f).watches[j]? = some w) :
    ∃ v, e.watches[j]? = some v ∧ ((j = k ∧ w = f v) ∨ (j ≠ k ∧ w = v)) := by
  simp only [change, List.getElem?_modify, Option.map_eq_map, Option.map_eq_some_iff] at found
  obtain ⟨v, before, rfl⟩ := found
  refine ⟨v, before, ?_⟩
  by_cases same : k = j
  · exact .inl ⟨same.symm, by rw [if_pos same]⟩
  · exact .inr ⟨Ne.symm same, by rw [if_neg same]⟩

/-- What a process knows of suspicions is vouched for: if it suspects the primary it tracks, and if
it holds that a correct process suspects one, then this process came to suspect that one. -/
structure Knows (c : Cluster) (faulty : NodeId → Bool) (actions : List Action) (k : NodeId)
    (s : Detection) : Prop where
  sized : s.Sized (c.siteOf k)
  own : s.suspects k = true → CameToSuspect c k s.view actions
  others : ∀ j, j ≠ k → faulty j = false → s.suspects j = true →
    CameToSuspect c j (s.tracked.getD j .tee) actions

/-- All that is known and was ever said of suspicions is vouched for. -/
structure Vouched (c : Cluster) (faulty : NodeId → Bool) (actions : List Action) (e : Vigil) :
    Prop where
  known : ∀ k w, e.watches[k]? = some w → Knows c faulty actions k w.detection
  said : ∀ k m, (k, .suspicion m) ∈ e.sent → m.suspected = true →
    CameToSuspect c k m.view actions

theorem getD_replicate {α : Type} (n k : Nat) (a : α) : (List.replicate n a).getD k a = a := by
  rw [List.getD_eq_getElem?_getD, List.getElem?_replicate]
  split <;> rfl

theorem suspects_new {site : Site} : (Detection.new site).suspects k = false :=
  getD_replicate _ _ _

theorem vouched_start (c : Cluster) (faulty : NodeId → Bool) :
    Vouched c faulty [] (start c) := by
  refine ⟨fun k w found => ?_, fun k m said => absurd said List.not_mem_nil⟩
  simp only [start, Cluster.nodes, List.getElem?_map, Option.map_eq_some_iff] at found
  obtain ⟨j, listed, rfl⟩ := found
  obtain ⟨inRange, rfl⟩ := List.getElem?_eq_some_iff.mp listed
  rw [List.length_range] at inRange
  rw [List.getElem_range] 
  have none {j : NodeId} (suspects : (Watch.new (c.siteOf k)).detection.suspects j = true) :
      False := by
    rw [Watch.new, suspects_new] at suspects
    contradiction
  exact ⟨⟨inRange, List.length_replicate, List.length_replicate⟩,
    fun suspects => (none suspects).elim, fun _ _ _ suspects => (none suspects).elim⟩

namespace Knows

variable {s : Detection}

theorem later (knows : Knows c faulty actions k s) (action : Action) :
    Knows c faulty (actions ++ [action]) k s :=
  ⟨knows.sized, fun suspects => (knows.own suspects).later action,
    fun j other correct suspects => (knows.others j other correct suspects).later action⟩

/-- If a process suspects the primary after a token, either it did before or this is the token at
which it comes to do so. -/
theorem token (knows : Knows c faulty actions k w.detection)
    (found : (run c actions).watches[k]? = some w) (sender : NodeId) (answers : Answers) :
    Knows c faulty (actions ++ [.token k sender answers]) k
      (w.detection.onToken (c.siteOf k) answers sender) := by
  have forgets := Detection.Forgets.onToken (c.siteOf k) w.detection answers sender
  have knew := knows.later (.token k sender answers)
  refine ⟨knows.sized.onToken answers sender, fun suspects => ?_,
    fun j other correct suspects => ?_⟩
  · by_cases before : w.detection.suspects k = true ∧
        w.detection.view = (w.detection.onToken (c.siteOf k) answers sender).view
    · rw [← before.2]
      exact knew.own before.1
    · exact ⟨actions, sender, answers, [], w, rfl, found, suspects, rfl, before⟩
  · rw [forgets.about j other]
    exact knew.others j other correct (forgets.suspects j other suspects)

/-- What is heard of a correct process is vouched for. -/
theorem receive (knows : Knows c faulty actions k s) {sender : NodeId} {m : Suspicion}
    (said : faulty sender = false → m.suspected = true → CameToSuspect c sender m.view actions) :
    Knows c faulty actions k (s.receive (c.siteOf k) sender m) := by
  obtain ⟨own, view⟩ : (s.receive (c.siteOf k) sender m).suspects k = s.suspects k ∧
      (s.receive (c.siteOf k) sender m).view = s.view := Detection.own_receive m
  refine ⟨knows.sized.receive sender m, fun suspects => ?_, fun j other correct suspects => ?_⟩
  · rw [view]
    exact knows.own (own.symm.trans suspects)
  · rcases Detection.suspects_receive knows.sized suspects with
      ⟨rfl, -, suspected, about⟩ | ⟨before, about⟩
    · rw [about]
      exact said correct suspected
    · rw [about]
      exact knows.others j other correct before

end Knows

namespace Vouched

theorem later (vouched : Vouched c faulty actions e) (action : Action) :
    Vouched c faulty (actions ++ [action]) e :=
  ⟨fun k w found => (vouched.known k w found).later action,
    fun k m said suspected => (vouched.said k m said suspected).later action⟩

/-- A remark of a correct process is vouched for if it was broadcast. -/
theorem hear (vouched : Vouched c faulty actions e) {receiver sender : NodeId} {m : Remark}
    (origin : faulty sender = true ∨ (sender, m) ∈ e.sent) :
    Vouched c faulty actions
      (e.change receiver fun w => w.receive (c.siteOf receiver) sender m) := by
  refine ⟨fun k w found => ?_, vouched.said⟩
  obtain ⟨v, before, ⟨rfl, rfl⟩ | ⟨-, rfl⟩⟩ := watches_change found
  · have knows := vouched.known k v before
    cases m with
    | opinion o => exact knows
    | suspicion m =>
        refine knows.receive fun correct suspected => ?_
        rcases origin with isFaulty | said
        · rw [correct] at isFaulty
          contradiction
        · exact vouched.said sender m said suspected
  · exact vouched.known k w before

theorem act (vouched : Vouched c faulty actions (run c actions)) {action : Action}
    (admitted : action.Admits faulty) :
    Vouched c faulty (actions ++ [action]) ((run c actions).act c action) := by
  cases action with
  | token receiver sender answers =>
      refine ⟨fun k w found => ?_, (vouched.later _).said⟩
      obtain ⟨v, before, ⟨rfl, rfl⟩ | ⟨-, rfl⟩⟩ := watches_change found
      · exact (vouched.known k v before).token before sender answers
      · exact (vouched.known k w before).later _
  | report k answers =>
      have before := vouched.later (.report k answers)
      rw [Vigil.act]
      split
      · exact before
      · next w found =>
          refine ⟨before.known, fun j m said suspected => ?_⟩
          rcases List.mem_append.mp said with earlier | now
          · exact before.said j m earlier suspected
          · simp only [reported, Detection.broadcast, Option.mem_toList, Option.map_eq_some_iff,
              Prod.mk.injEq, Remark.suspicion.injEq, Option.ite_none_right_eq_some,
              Option.some.injEq] at now
            obtain ⟨_, ⟨-, rfl⟩, rfl, rfl⟩ := now
            exact (before.known k w found).own suspected
  | monitor k answers =>
      have before := vouched.later (.monitor k answers)
      rw [Vigil.act]
      split
      · exact before
      · next w found =>
          refine ⟨fun j v foundAfter => ?_, fun j m said suspected => ?_⟩
          · obtain ⟨u, found, ⟨-, rfl⟩ | ⟨-, rfl⟩⟩ := watches_change foundAfter
            · exact before.known j u found
            · exact before.known j v found
          · refine before.said j m ?_ suspected
            simpa using said
  | deliver receiver index =>
      have before := vouched.later (.deliver receiver index)
      rw [Vigil.act]
      split
      · exact before
      · next sender m arrived => exact before.hear (.inr (List.mem_of_getElem? arrived))
  | forge receiver sender m => exact (vouched.later _).hear (.inl admitted)

end Vouched

theorem vouched_run (admitted : ∀ action ∈ actions, action.Admits faulty) :
    Vouched c faulty actions (run c actions) := by
  induction actions using List.reverseRecOn with
  | nil => exact vouched_start c faulty
  | append_singleton actions action ih =>
      have before := ih fun earlier member => admitted earlier (List.mem_append_left _ member)
      rw [run, List.foldl_append]
      exact before.act (admitted action (by simp))

/-- Faulty processes alone cannot depose a primary.  When a process asks for a view change, the
primary that it tracks has been suspected by a weak quorum of correct processes themselves. -/
theorem deposes_only_if_suspected (few : c.nodes.countP faulty ≤ c.faults)
    (admitted : ∀ action ∈ actions, action.Admits faulty)
    (found : (run c actions).watches[k]? = some w) {answers : Answers}
    (deposes : .viewChange ∈ (w.monitor (c.siteOf k) answers).directives) :
    ∃ primary, w.detection.view = .id primary ∧
      ∃ accusers : List NodeId, accusers.Nodup ∧ c.weakQuorum ≤ accusers.length ∧
        ∀ j ∈ accusers, j < c.size ∧ faulty j = false ∧
          CameToSuspect c j (.id primary) actions := by
  have suspected : w.detection.suspected (c.siteOf k) = true :=
    Monitoring.suspected_of_viewChange deposes
  have knows := (vouched_run admitted).known k w found
  simp only [Detection.suspected, Bool.and_eq_true, decide_eq_true_eq] at suspected
  obtain ⟨tracks, quorum⟩ := suspected
  obtain ⟨primary, tracked⟩ : ∃ primary, w.detection.view = .id primary := by
    cases view : w.detection.view with
    | tee => simp [view, View.isTee] at tracks
    | id primary => exact ⟨primary, rfl⟩
  let accuses (j : NodeId) : Bool :=
    w.detection.suspects j && w.detection.tracked.getD j .tee = w.detection.view
  have correct : c.weakQuorum ≤ c.nodes.countP fun j => accuses j && !faulty j := by
    have some := countP_le_countP_not_add accuses faulty c.nodes
    have quorum : c.adoptQuorum ≤ c.nodes.countP accuses := quorum
    rw [Cluster.adoptQuorum] at quorum
    rw [Cluster.weakQuorum]
    omega
  refine ⟨primary, tracked, c.nodes.filter fun j => accuses j && !faulty j,
    List.nodup_range.filter _, List.countP_eq_length_filter ▸ correct, fun j member => ?_⟩
  simp only [List.mem_filter, Cluster.nodes, List.mem_range, accuses, Bool.and_eq_true,
    decide_eq_true_eq, Bool.not_eq_true'] at member
  obtain ⟨inRange, ⟨suspects, about⟩, correct⟩ := member
  refine ⟨inRange, correct, ?_⟩
  rw [← tracked]
  by_cases itself : j = k
  · subst itself
    exact knows.own suspects
  · rw [← about]
    exact knows.others j itself correct suspects

/-- Six processes, of which the last one is faulty; a single token makes others unresponsive. -/
def watchedCluster : Cluster :=
  (Cluster.new 6 1).withThreshold 1

def lastIsFaulty (k : NodeId) : Bool :=
  k = 5

/-- Everybody is reported to be in the first view, and service is allowed. -/
def inFirstView : Answers :=
  { Ensemble.reporting 0 with serviceAllowed := true }

/-- Everything that was broadcast up to some number arrives at the processes between the first and
the last one, which hear from the last one that it wants a change, too. -/
def hearing (first count : Nat) (m : Remark) : List Action :=
  [1, 2, 3, 4].flatMap fun k =>
    (List.range' first count).map (.deliver k) ++ [.forge k 5 m]

/-- The processes between the first and the last one hear tokens of each other, but none of the
first one.  They come to suspect it, want a change, and learn that they all do. -/
def deposition : List Action :=
  [.token 1 2 inFirstView, .token 2 1 inFirstView, .token 3 1 inFirstView,
      .token 4 1 inFirstView] ++
    [1, 2, 3, 4].map (.report · inFirstView) ++
    hearing 0 4 (.suspicion { view := .id 0, suspected := true }) ++
    [1, 2, 3, 4].map (.monitor · inFirstView) ++
    hearing 4 4
      (.opinion
        { service := .ok
          view := .id 0
          wantsChange := true
          seconded := .filterBelow 6 fun k => k ≠ 0 }) ++
    [1, 2, 3, 4].map (.monitor · inFirstView) ++ hearing 8 4 (.suspicion default)

/-- So the first process is deposed, and three correct processes have suspected it themselves. -/
theorem first_process_deposed :
    watchedCluster.nodes.countP lastIsFaulty ≤ watchedCluster.faults ∧
      (∀ action ∈ deposition, action.Admits lastIsFaulty) ∧
      ∃ w, (run watchedCluster deposition).watches[1]? = some w ∧
        .viewChange ∈ (w.monitor (watchedCluster.siteOf 1) inFirstView).directives ∧
        ∃ primary, w.detection.view = .id primary ∧
          ∃ accusers : List NodeId, accusers.Nodup ∧ 3 ≤ accusers.length ∧
            ∀ j ∈ accusers, j < 6 ∧ lastIsFaulty j = false ∧
              CameToSuspect watchedCluster j (.id primary) deposition := by
  have few : watchedCluster.nodes.countP lastIsFaulty ≤ watchedCluster.faults := by decide
  have admitted : ∀ action ∈ deposition, action.Admits lastIsFaulty := by decide
  have directed : ((run watchedCluster deposition).watches[1]?.map fun w =>
      (w.monitor (watchedCluster.siteOf 1) inFirstView).directives) = some [.viewChange] := by
    decide +kernel
  obtain ⟨w, found, directives⟩ := Option.map_eq_some_iff.mp directed
  have deposes : .viewChange ∈
      (w.monitor (watchedCluster.siteOf 1) inFirstView).directives := by
    rw [directives]
    exact List.mem_singleton.mpr rfl
  exact ⟨few, admitted, w, found, deposes,
    deposes_only_if_suspected few admitted found deposes⟩

end Vigil

end QuorumList
