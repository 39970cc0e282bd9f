import QuorumList.Agreement.Round
import QuorumList.Proofs.Accusations

/-!
Loss of service that spreads.

A process reports that there is no service as soon as a weak quorum of processes reports so, and it
counts its own report of the round before.  Nothing else ever makes a process report it, and nothing
but a new view or a new count makes it stop.  So if nobody is suspected and all processes hear from
each other in every round, then a weak quorum of such reports at the start is enough for all
processes to report it in every round from then on; with fewer, no process ever does again.

A primary assigns no requests as long as it reports that there is no service.
-/
namespace QuorumList.Monitoring

variable {site : Site} {s : Monitoring} {c : Cluster} {view : View} {answers : Answers}
  {said : List Opinion}

/-! ### A round without suspicion -/

/-- Establishment reports this view for every process, and nobody is suspected. -/
structure Calm (c : Cluster) (view : View) (answers : Answers) : Prop where
  viewOf : ∀ k < c.size, answers.viewOf k = view
  unsuspected : answers.suspected = false

/-- What a process reports that suspects nobody and has heard these reports. -/
def verdict (c : Cluster) (services : List Service) : Service :=
  if c.weakQuorum ≤ services.count .noService then .noService else .ok

theorem countP_service (opinions : List Opinion) :
    opinions.countP (fun o => o.service = .noService) =
      (opinions.map Opinion.service).count .noService := by
  rw [List.count, List.countP_map]
  rfl

theorem opinions_setOwn (o : Opinion) :
    (s.setOwn site o).opinions = s.opinions.set site.me o := rfl

/-- Forming an opinion about the same view leaves all reports of service as they are. -/
theorem map_service_formOpinion (inTable : site.me < s.opinions.length)
    (sameView : (s.own site).view = answers.viewOf site.me) :
    (s.formOpinion site answers).opinions.map Opinion.service =
      s.opinions.map Opinion.service := by
  have reported : site.me < (s.opinions.map Opinion.service).length := by
    simpa using inTable
  have held : (s.own site).service = (s.opinions.map Opinion.service)[site.me] := by
    simp [own, opinionOf, inTable]
  rw [formOpinion, opinions_setOwn, if_pos sameView, List.map_set, held, List.set_getElem_self]

/-- Without suspicion the own opinion is still about the same view after a round, and reports what
follows from the reports so far. -/
theorem round_of_calm (calm : Calm site.cluster view answers)
    (member : site.me < site.cluster.size) (length : s.opinions.length = site.cluster.size)
    (inView : (s.own site).view = view) :
    ((s.round site answers).state.own site).view = view ∧
      ((s.round site answers).state.own site).service =
        verdict site.cluster (s.opinions.map Opinion.service) := by
  have inTable : site.me < s.opinions.length := by rwa [length]
  have inFormed : site.me < (s.formOpinion site answers).opinions.length := by
    simpa [formOpinion, setOwn] using inTable
  have told : answers.viewOf site.me = view := calm.viewOf site.me member
  have assessed : (s.formOpinion site answers).assess site answers =
      verdict site.cluster (s.opinions.map Opinion.service) := by
    rw [assess, calm.unsuspected, Bool.and_false, countP_service,
      map_service_formOpinion inTable (inView.trans told.symm), verdict]
    rfl
  refine ⟨(own_round answers inTable).1.trans told, ?_⟩
  unfold round
  dsimp only
  rw [own_setOwn inFormed]
  exact assessed

/-! ### Hearing from everybody -/

/-- Hear what each process has to say. -/
def hearAll (site : Site) (said : List Opinion) (s : Monitoring) : Monitoring :=
  said.zipIdx.foldl (fun s m => s.receive site m.2 m.1) s

theorem getElem?_opinions_receive {sender j : NodeId} {o : Opinion}
    (length : s.opinions.length = site.cluster.size) :
    (s.receive site sender o).opinions[j]? =
      if site.isPeer sender = true ∧ j = sender then some o else s.opinions[j]? := by
  unfold receive
  cases peer : site.isPeer sender with
  | false => simp
  | true =>
      have inTable : sender < s.opinions.length := by
        rw [length]
        exact (Site.isPeer_iff.mp peer).2
      simp only [if_true, true_and, List.getElem?_set]
      by_cases same : j = sender
      · simp [same, inTable]
      · simp [same, Ne.symm same]

theorem getElem?_opinions_hearAll (length : s.opinions.length = site.cluster.size)
    (said : List Opinion) (j : NodeId) :
    (s.hearAll site said).opinions.length = site.cluster.size ∧
      (s.hearAll site said).opinions[j]? =
        if site.isPeer j = true ∧ j < said.length then said[j]? else s.opinions[j]? := by
  induction said using List.reverseRecOn with
  | nil => exact ⟨length, by simp [hearAll]⟩
  | append_singleton said o ih =>
      have last : s.hearAll site (said ++ [o]) =
          (s.hearAll site said).receive site said.length o := by
        simp [hearAll, List.zipIdx_append]
      rw [last, length_opinions_receive, getElem?_opinions_receive ih.1, ih.2]
      refine ⟨ih.1, ?_⟩
      rcases Nat.lt_trichotomy j said.length with earlier | rfl | later
      · simp [Nat.ne_of_lt earlier, earlier, Nat.lt_succ_of_lt earlier]
      · simp
      · have beyond : ¬j < said.length + 1 := Nat.not_lt.mpr later
        simp [Nat.ne_of_gt later, Nat.not_lt_of_gt later, beyond]

/-- A process that has heard from everybody holds what everybody said, if it said so itself. -/
theorem opinions_hearAll (member : site.me < site.cluster.size)
    (length : s.opinions.length = site.cluster.size) (all : said.length = site.cluster.size)
    (itself : said[site.me]? = some (s.own site)) : (s.hearAll site said).opinions = said := by
  apply List.ext_getElem?
  intro j
  rw [(getElem?_opinions_hearAll length said j).2]
  split
  · rfl
  · next unheard =>
      by_cases isMe : j = site.me
      · have inTable : site.me < s.opinions.length := by rwa [length]
        rw [isMe, itself]
        simp [own, opinionOf, inTable]
      · have outside : site.cluster.size ≤ j := by
          refine Nat.le_of_not_lt fun inRange => unheard ⟨Site.isPeer_iff.mpr ⟨isMe, inRange⟩, ?_⟩
          rwa [all]
        rw [List.getElem?_eq_none (length ▸ outside), List.getElem?_eq_none (all ▸ outside)]

/-! ### Joint rounds -/

variable {modules : List Monitoring} {k : NodeId}

/-- The opinions that the processes of a cluster hold themselves. -/
def voiced (c : Cluster) (modules : List Monitoring) : List Opinion :=
  modules.mapIdx fun k s => s.own (c.siteOf k)

/-- What the processes of a cluster report themselves. -/
def services (c : Cluster) (modules : List Monitoring) : List Service :=
  (voiced c modules).map Opinion.service

/-- All hear from everybody. -/
def exchange (c : Cluster) (modules : List Monitoring) : List Monitoring :=
  modules.mapIdx fun k s => s.hearAll (c.siteOf k) (voiced c modules)

/-- All processes run a round, and then all hear from everybody. -/
def jointRound (c : Cluster) (answers : NodeId → Answers) (modules : List Monitoring) :
    List Monitoring :=
  exchange c (modules.mapIdx fun k s => (s.round (c.siteOf k) (answers k)).state)

/-- One joint round after the other. -/
def jointRounds (c : Cluster) (rounds : List (NodeId → Answers)) (modules : List Monitoring) :
    List Monitoring :=
  rounds.foldl (fun modules answers => jointRound c answers modules) modules

/-- Every process knows the opinion that each process holds, and all these are about one view. -/
structure Informed (c : Cluster) (view : View) (modules : List Monitoring) : Prop where
  length : modules.length = c.size
  current : ∀ s ∈ modules, s.opinions = voiced c modules
  inView : ∀ o ∈ voiced c modules, o.view = view

@[simp] theorem length_voiced : (voiced c modules).length = modules.length := by
  simp [voiced]

theorem getElem?_voiced :
    (voiced c modules)[k]? = modules[k]?.map fun s => s.own (c.siteOf k) := by
  simp [voiced]

/-- Afterwards everybody holds what was said, and nobody has changed the own mind. -/
theorem exchange_spec (length : modules.length = c.size)
    (sized : ∀ s ∈ modules, s.opinions.length = c.size) :
    voiced c (exchange c modules) = voiced c modules ∧
      ∀ s ∈ exchange c modules, s.opinions = voiced c modules := by
  have itself : ∀ (k : NodeId) (s : Monitoring), modules[k]? = some s →
      (voiced c modules)[k]? = some (s.own (c.siteOf k)) := by
    intro k s found
    rw [getElem?_voiced, found, Option.map_some]
  have heard : ∀ (k : NodeId) (s : Monitoring), modules[k]? = some s →
      (s.hearAll (c.siteOf k) (voiced c modules)).opinions = voiced c modules := by
    intro k s found
    have member : (c.siteOf k).me < (c.siteOf k).cluster.size :=
      length ▸ (List.getElem?_eq_some_iff.mp found).1
    exact opinions_hearAll member (sized s (List.mem_of_getElem? found))
      (length_voiced.trans length) (itself k s found)
  constructor
  · apply List.ext_getElem?
    intro k
    rw [exchange, getElem?_voiced, getElem?_voiced, List.getElem?_mapIdx, Option.map_map]
    cases found : modules[k]? with
    | none => rfl
    | some s =>
        have held : (s.hearAll (c.siteOf k) (voiced c modules)).own (c.siteOf k) =
            s.own (c.siteOf k) :=
          calc _ = (voiced c modules).getD k (.fresh .tee) :=
                congrArg (List.getD · k (.fresh .tee)) (heard k s found)
            _ = s.own (c.siteOf k) := by
                rw [List.getD_eq_getElem?_getD, itself k s found, Option.getD_some]
        exact congrArg some held
  · intro t member
    obtain ⟨k, found⟩ := List.mem_iff_getElem?.mp member
    simp only [exchange, List.getElem?_mapIdx, Option.map_eq_some_iff] at found
    obtain ⟨s, found, rfl⟩ := found
    exact heard k s found

/-- In a joint round everybody comes to report the same, and everybody knows. -/
theorem Informed.jointRound (informed : Informed c view modules) {answers : NodeId → Answers}
    (calm : ∀ k < c.size, Calm c view (answers k)) :
    Informed c view (jointRound c answers modules) ∧
      services c (jointRound c answers modules) =
        List.replicate c.size (verdict c (services c modules)) := by
  unfold Monitoring.jointRound
  -- How each process stands after its own round.
  have each : ∀ t ∈ modules.mapIdx fun k s => (s.round (c.siteOf k) (answers k)).state,
      t.opinions.length = c.size := by
    intro t member
    obtain ⟨k, inTable, rfl⟩ := List.mem_mapIdx.mp member
    rw [length_opinions_round, informed.current _ (List.getElem_mem inTable), length_voiced,
      informed.length]
  have spoken : ∀ o ∈ voiced c (modules.mapIdx fun k s =>
      (s.round (c.siteOf k) (answers k)).state),
      o.view = view ∧ o.service = verdict c (services c modules) := by
    intro o member
    obtain ⟨k, found⟩ := List.mem_iff_getElem?.mp member
    simp only [getElem?_voiced, List.getElem?_mapIdx, Option.map_eq_some_iff] at found
    obtain ⟨t, ⟨s, found, rfl⟩, rfl⟩ := found
    have inRange : k < c.size := informed.length ▸ (List.getElem?_eq_some_iff.mp found).1
    have current := informed.current s (List.mem_of_getElem? found)
    have voice : (voiced c modules)[k]? = some (s.own (c.siteOf k)) := by
      rw [getElem?_voiced, found, Option.map_some]
    have calmHere : Calm (c.siteOf k).cluster view (answers k) := calm k inRange
    have sized : s.opinions.length = (c.siteOf k).cluster.size := by
      rw [current, length_voiced, informed.length]
      rfl
    have reports := round_of_calm calmHere inRange sized
      (informed.inView _ (List.mem_of_getElem? voice))
    rw [current] at reports
    exact reports
  have length : (modules.mapIdx fun k s => (s.round (c.siteOf k) (answers k)).state).length =
      c.size := by
    rw [List.length_mapIdx, informed.length]
  generalize modules.mapIdx (fun k s => (s.round (c.siteOf k) (answers k)).state) = ran at *
  obtain ⟨same, heard⟩ := exchange_spec length each
  refine ⟨⟨?_, fun s member => ?_, fun o member => ?_⟩, ?_⟩
  · rw [exchange, List.length_mapIdx, length]
  · rw [same]
    exact heard s member
  · exact (spoken o (same ▸ member)).1
  · rw [services, same, List.eq_replicate_iff, List.length_map, length_voiced, length]
    refine ⟨rfl, fun service reported => ?_⟩
    obtain ⟨o, member, rfl⟩ := List.mem_map.mp reported
    exact (spoken o member).2

theorem verdict_eq_or (c : Cluster) (services : List Service) :
    verdict c services = .noService ∨ verdict c services = .ok := by
  unfold verdict
  split
  · exact .inl rfl
  · exact .inr rfl

/-- Where all report the same they go on to do so. -/
theorem verdict_replicate (large : 5 * c.faults < c.size) {service : Service}
    (either : service = .noService ∨ service = .ok) :
    verdict c (List.replicate c.size service) = service := by
  have enough : c.weakQuorum ≤ c.size := by
    rw [Cluster.weakQuorum]
    omega
  rcases either with rfl | rfl
  · rw [verdict, List.count_replicate_self, if_pos enough]
  · have none : (List.replicate c.size Service.ok).count .noService = 0 :=
      List.count_eq_zero.mpr fun member => by simpa using List.eq_of_mem_replicate member
    rw [verdict, none, if_neg (by simp [Cluster.weakQuorum])]

/-- After a number of joint rounds everybody reports what followed in the first one. -/
theorem Informed.jointRounds (informed : Informed c view modules)
    (large : 5 * c.faults < c.size) {rounds : List (NodeId → Answers)}
    (calm : ∀ answers ∈ rounds, ∀ k < c.size, Calm c view (answers k)) :
    Informed c view (jointRounds c rounds modules) ∧
      (rounds ≠ [] → services c (jointRounds c rounds modules) =
        List.replicate c.size (verdict c (services c modules))) := by
  induction rounds using List.reverseRecOn with
  | nil => exact ⟨informed, fun some => absurd rfl some⟩
  | append_singleton rounds answers ih =>
      obtain ⟨before, reported⟩ := ih fun a member => calm a (List.mem_append_left _ member)
      obtain ⟨after, reports⟩ := before.jointRound (calm answers (by simp))
      rw [Monitoring.jointRounds, List.foldl_append]
      refine ⟨after, fun _ => reports.trans ?_⟩
      cases rounds with
      | nil => rfl
      | cons first rest =>
          rw [reported (List.cons_ne_nil _ _), verdict_replicate large (verdict_eq_or c _)]

/-- Without suspicion, what everybody reports from the first joint round on is settled by how many
report at the start that there is no service.  If they are a weak quorum, everybody does so for
ever, and no primary may assign; otherwise nobody does.  A joint round changes no report exactly if
all report that all is well, or all report that there is no service. -/
theorem no_service_spreads (large : 5 * c.faults < c.size) (informed : Informed c view modules)
    {rounds : List (NodeId → Answers)}
    (calm : ∀ answers ∈ rounds, ∀ k < c.size, Calm c view (answers k)) :
    (rounds ≠ [] →
      services c (jointRounds c rounds modules) =
          List.replicate c.size
            (if c.weakQuorum ≤ (services c modules).count .noService then .noService else .ok) ∧
        ∀ k s (answers : Answers), (jointRounds c rounds modules)[k]? = some s →
          Agreement.mayAssign (c.siteOf k)
              { answers with noViewChange := some (s.noViewChange (c.siteOf k)) } =
            decide ((services c modules).count .noService < c.weakQuorum)) ∧
      ∀ answers ∈ rounds,
        (services c (jointRound c answers modules) = services c modules ↔
          services c modules = List.replicate c.size .ok ∨
            services c modules = List.replicate c.size .noService) := by
  constructor
  · intro some
    have reports := (informed.jointRounds large calm).2 some
    refine ⟨reports, fun k s answers found => ?_⟩
    have own : (services c (jointRounds c rounds modules))[k]? =
        Option.some (s.own (c.siteOf k)).service := by
      rw [services, List.getElem?_map, getElem?_voiced, found]
      rfl
    rw [reports] at own
    have service : (s.own (c.siteOf k)).service = verdict c (services c modules) :=
      (List.eq_of_mem_replicate (List.mem_of_getElem? own))
    have free : Agreement.mayAssign (c.siteOf k)
        { answers with noViewChange := Option.some (s.noViewChange (c.siteOf k)) } =
          decide ((s.own (c.siteOf k)).service = .ok) := by
      simp [Agreement.mayAssign, noViewChange, Cluster.siteOf, Switches.none]
    rw [free, service, verdict]
    by_cases many : c.weakQuorum ≤ (services c modules).count .noService
    · simp [many, Nat.not_lt.mpr many]
    · simp [many, Nat.lt_of_not_le many]
  · intro answers member
    rw [(informed.jointRound (calm answers member)).2]
    constructor
    · intro unchanged
      rcases verdict_eq_or c (services c modules) with lost | fine
      · exact .inr (lost ▸ unchanged.symm)
      · exact .inl (fine ▸ unchanged.symm)
    · rintro (fine | lost)
      · rw [fine, verdict_replicate large (.inr rfl)]
      · rw [lost, verdict_replicate large (.inl rfl)]

/-- Six processes know each other's opinions; the first few report that there is no service. -/
def partlyLost (lost : Nat) : List Monitoring :=
  List.replicate 6
    { opinions := (List.range 6).map fun k =>
        { Opinion.fresh (.id 1) with service := if k < lost then .noService else .ok } }

theorem informed_partlyLost {lost : Nat} (few : lost ≤ 6) :
    Informed (.new 6 1) (.id 1) (partlyLost lost) := by
  have all : ∀ lost ≤ 6,
      (∀ s ∈ partlyLost lost, s.opinions = voiced (.new 6 1) (partlyLost lost)) ∧
        ∀ o ∈ voiced (.new 6 1) (partlyLost lost), o.view = .id 1 := by decide +kernel
  exact ⟨rfl, (all lost few).1, (all lost few).2⟩

theorem calm_reporting (c : Cluster) (primary : NodeId) :
    Calm c (.id primary) (Ensemble.reporting primary) :=
  ⟨fun _ _ => rfl, rfl⟩

/-- Three reports of six spread to all processes, and stay. -/
theorem three_reports_spread :
    5 * (Cluster.new 6 1).faults < (Cluster.new 6 1).size ∧
      Informed (.new 6 1) (.id 1) (partlyLost 3) ∧
      services (.new 6 1)
          (jointRounds (.new 6 1) [fun _ => Ensemble.reporting 1, fun _ => Ensemble.reporting 1]
            (partlyLost 3)) =
        List.replicate 6 .noService := by
  have large : 5 * (Cluster.new 6 1).faults < (Cluster.new 6 1).size := by decide
  have informed : Informed (.new 6 1) (.id 1) (partlyLost 3) := informed_partlyLost (by decide)
  have calm : ∀ answers ∈ [fun _ : NodeId => Ensemble.reporting 1, fun _ => Ensemble.reporting 1],
      ∀ k < (Cluster.new 6 1).size, Calm (.new 6 1) (.id 1) (answers k) := by
    intro answers member k _
    obtain rfl : answers = fun _ => Ensemble.reporting 1 := by simpa using member
    exact calm_reporting _ _
  have spread := no_service_spreads large informed calm
  have many : (Cluster.new 6 1).weakQuorum ≤
      (services (.new 6 1) (partlyLost 3)).count .noService := by decide +kernel
  have reports := (spread.1 (List.cons_ne_nil _ _)).1
  rw [if_pos many] at reports
  exact ⟨large, informed, reports⟩

/-- Nobody is suspected and everybody knows everybody's opinion, and yet all processes go on to
report that there is no service. -/
theorem no_service_sustains_itself :
    5 * (Cluster.new 6 1).faults < (Cluster.new 6 1).size ∧
      Informed (.new 6 1) (.id 1) (partlyLost 6) ∧
      (∀ k < 6, Calm (.new 6 1) (.id 1) (Ensemble.reporting 1)) ∧
      services (.new 6 1) (jointRound (.new 6 1) (fun _ => Ensemble.reporting 1) (partlyLost 6)) =
        services (.new 6 1) (partlyLost 6) ∧
      .ok ∉ services (.new 6 1) (partlyLost 6) :=
  ⟨by decide, informed_partlyLost (Nat.le_refl 6), fun _ _ => calm_reporting _ _,
    by decide +kernel, by decide +kernel⟩

end QuorumList.Monitoring
