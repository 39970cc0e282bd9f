import QuorumList.Proofs.Council

/-!
A view that some processes cannot disturb.

Take a view, and call some processes disturbers, at most `3F` of them, so that at least `3F + 1`
others are left.  If the others are steady in the view and see each other so, they stay: whatever
the disturbers show to each of them, a stance other than the steady one finds support only among the
disturbers, and the steady one is supported by all others.  They are then ready to serve the view,
and each does while its stance is witnessed.
-/
namespace QuorumList

/-- The disturbers are too few to be followed, and the others enough to stay. -/
structure Outnumbered (c : Cluster) (disturber : NodeId → Bool) : Prop where
  few : c.nodes.countP disturber ≤ 3 * c.faults
  enough : c.adoptQuorum ≤ c.nodes.countP fun j => !disturber j

namespace Establishment

variable {site : Site} {s : Establishment} {disturber : NodeId → Bool} {v k j : NodeId}

/-- All processes but the disturbers are seen steady in a view. -/
def SeesSteady (site : Site) (disturber : NodeId → Bool) (v : NodeId) (s : Establishment) : Prop :=
  ∀ j, j < site.cluster.size → disturber j = false → s.stanceOf j = .steadyIn v

/-- The process is steady in a view, sees all others but the disturbers so, and wants no change. -/
structure Steadfast (site : Site) (disturber : NodeId → Bool) (v : NodeId) (s : Establishment) :
    Prop where
  own : s.own site = .steadyIn v
  sees : s.SeesSteady site disturber v
  unwished : s.changeWanted = false

theorem not_stale_of_steadyIn (inRange : v < site.cluster.size)
    (seen : s.stanceOf j = .steadyIn v) : s.stale site j = false := by
  rw [stale, seen, Stance.legit_steadyIn inRange]
  rfl

/-- Everybody but the disturbers is among those with a property that the steady stance brings. -/
theorem le_countP_of_steady {c : Cluster} {p : NodeId → Bool}
    (has : ∀ j, j < c.size → disturber j = false → p j = true) :
    (c.nodes.countP fun j => !disturber j) ≤ c.nodes.countP p :=
  List.countP_mono_left fun j listed faithful =>
    has j (List.mem_range.mp listed) (by simpa using faithful)

/-- Only disturbers support a stance with another pair. -/
theorem not_adoptable_of_ne (outnumbered : Outnumbered site.cluster disturber)
    (steady : s.SeesSteady site disturber v) (other : s.pairOf k ≠ .steady (.id v)) :
    s.adoptable site k .steady .follow = false := by
  -- All others hold the steady pair, and in phase `.steady` a process supports only its own pair.
  have support : site.cluster.nodes.countP (fun j => s.sameStance site k .steady j ||
      s.inTransit site k .steady .follow j) ≤ site.cluster.nodes.countP disturber := by
    apply List.countP_mono_left
    intro j listed supports
    have inRange : j < site.cluster.size := List.mem_range.mp listed
    cases faithful : disturber j with
    | true => rfl
    | false =>
        have unsupporting : (s.sameStance site k .steady j ||
            s.inTransit site k .steady .follow j) = false :=
          not_supports (steady j inRange faithful) other .follow
        exact absurd (supports.symm.trans unsupporting) Bool.noConfusion
  refine Bool.eq_false_iff.mpr fun adopts => ?_
  have quorum := Nat.le_trans (of_decide_eq_true adopts) (Nat.le_trans support outnumbered.few)
  exact Nat.not_succ_le_self _ quorum

theorem SeesSteady.sanitizePeers (steady : s.SeesSteady site disturber v)
    (inRange : v < site.cluster.size) :
    (s.sanitizePeers site).SeesSteady site disturber v := by
  intro j listed faithful
  have seen := steady j listed faithful
  rw [stanceOf_sanitizePeers_of_legit (seen ▸ Stance.legit_steadyIn inRange), seen]

theorem SeesSteady.receive (steady : s.SeesSteady site disturber v) (sized : s.Sized site)
    {sender : NodeId} {a : Announcement}
    (honest : disturber sender = false → a.stance = .steadyIn v) :
    (s.receive site sender a).SeesSteady site disturber v := by
  intro j listed faithful
  by_cases same : j = sender
  · subst same
    rcases stanceOf_receive_eq_or sized j a with ⟨unchanged, -⟩ | ⟨-, shown, -⟩
    · rw [unchanged]
      exact steady j listed faithful
    · rw [shown]
      exact honest faithful
  · rw [(stanceOf_receive_of_ne same a).1]
    exact steady j listed faithful

namespace Steadfast

theorem legit (steadfast : s.Steadfast site disturber v) (inRange : v < site.cluster.size) :
    (s.own site).legit site.cluster.size = true := by
  rw [steadfast.own]
  exact Stance.legit_steadyIn inRange

theorem sanitizePeers (steadfast : s.Steadfast site disturber v)
    (inRange : v < site.cluster.size) : (s.sanitizePeers site).Steadfast site disturber v where
  own := (own_sanitizePeers site s).trans steadfast.own
  sees := steadfast.sees.sanitizePeers inRange
  unwished := steadfast.unwished

theorem stay (steadfast : s.Steadfast site disturber v) :
    (s.stay site).state.Steadfast site disturber v where
  own := steadfast.own
  sees := steadfast.sees
  unwished := by simp [Establishment.stay, steadfast.unwished]

theorem receive (steadfast : s.Steadfast site disturber v) (sized : s.Sized site)
    {sender : NodeId} {a : Announcement}
    (honest : disturber sender = false → a.stance = .steadyIn v) :
    (s.receive site sender a).Steadfast site disturber v where
  own := (own_receive site s sender a).trans steadfast.own
  sees := steadfast.sees.receive sized honest
  unwished := (changeWanted_receive site s sender a).trans steadfast.unwished

/-- Nobody is followed, and all that are no disturbers support that the process stays. -/
theorem select_eq_stay (steadfast : s.Steadfast site disturber v)
    (outnumbered : Outnumbered site.cluster disturber) (inRange : v < site.cluster.size) :
    s.select site = .stay := by
  have own := steadfast.own
  have unfollowed : s.followedSteady site = none := by
    rw [followedSteady, List.find?_eq_none]
    intro k _ followed
    simp only [own, Stance.steadyIn, Bool.and_eq_true, decide_eq_true_eq] at followed
    rw [not_adoptable_of_ne outnumbered steadfast.sees followed.1] at followed
    exact Bool.false_ne_true followed.2
  have supported : s.adoptable site site.me .steady .remain = true := by
    rw [adoptable, decide_eq_true_eq]
    refine Nat.le_trans outnumbered.enough (le_countP_of_steady fun j listed faithful => ?_)
    have seen := steadfast.sees j listed faithful
    have same := (stanceOf_eq_iff.mp seen).2.trans (stanceOf_eq_iff.mp own).2.symm
    simp [sameStance, samePair, same, not_stale_of_steadyIn inRange seen,
      (stanceOf_eq_iff.mp seen).1, Stance.steadyIn]
  simp [select, selectSteady, own, Stance.steadyIn, unfollowed, steadfast.unwished, supported,
    ViewPair.isReset, ViewPair.steady, ViewPair.reset]

/-- A round of a steadfast process changes nothing, asks for nothing and counts nothing. -/
theorem round_eq_stay (steadfast : s.Steadfast site disturber v)
    (outnumbered : Outnumbered site.cluster disturber) (inRange : v < site.cluster.size)
    {answers : Answers} (unasked : answers.needFlush = false) :
    s.round site answers = (s.sanitizePeers site).stay site := by
  have stays := (steadfast.sanitizePeers inRange).select_eq_stay outnumbered inRange
  rw [round_eq_perform (steadfast.legit inRange) unasked, stays]
  rfl

theorem allowService_eq_true (steadfast : s.Steadfast site disturber v)
    (outnumbered : Outnumbered site.cluster disturber) (inRange : v < site.cluster.size) :
    s.allowService site = true := by
  have own := steadfast.own
  have same : 3 * site.cluster.faults < site.cluster.nodes.countP (s.samePair site site.me) := by
    refine Nat.lt_of_lt_of_le (Nat.lt_of_succ_le outnumbered.enough)
      (le_countP_of_steady fun j listed faithful => ?_)
    have seen := steadfast.sees j listed faithful
    have samePair := (stanceOf_eq_iff.mp seen).2.trans (stanceOf_eq_iff.mp own).2.symm
    simp [Establishment.samePair, samePair, not_stale_of_steadyIn inRange seen]
  simp [allowService, same, own, Stance.steadyIn, ViewPair.steady]

/-- A steadfast process serves the view exactly while its stance is witnessed. -/
theorem currentView_eq_id_iff (steadfast : s.Steadfast site disturber v)
    (outnumbered : Outnumbered site.cluster disturber) (inRange : v < site.cluster.size)
    (member : site.me < site.cluster.size) (unforced : site.switches.forceView = none) :
    s.currentView site site.me = .id v ↔ s.witnessed site = true := by
  have own := steadfast.own
  have served := steadfast.allowService_eq_true outnumbered inRange
  simp [currentView, Nat.not_le.mpr member, ownView, unforced, served, own, Stance.steadyIn,
    ViewPair.steady]

end Steadfast

end Establishment

namespace Council

open Establishment

/-- Processes that are no disturbers are steadfast, have announced nothing else to each other, and
nothing has been counted for them. -/
structure Settled (c : Cluster) (disturber : NodeId → Bool) (v : NodeId) (e : Council) : Prop where
  sized : e.Sized c
  steadfast : e.All fun k s => disturber k = false → s.Steadfast (c.siteOf k) disturber v
  letters : ∀ l ∈ e.inFlight, disturber l.sender = false → disturber l.receiver = false →
    l.content.stance = .steadyIn v
  quiet : ∀ k event, (k, event) ∈ e.events → disturber k = true

/-- Agreement asks no process for a flush, nobody asks one for a view change, and nobody forges its
letters, unless the process is a disturber. -/
def Action.Spares (disturber : NodeId → Bool) : Action → Prop
  | .round k answers => disturber k = true ∨ answers.needFlush = false
  | .wish k => disturber k = true
  | .arrive _ _ => True
  | .stray _ => True
  | .forge l => disturber l.sender = true

variable {c : Cluster} {disturber : NodeId → Bool} {v : NodeId} {e : Council} {action : Action}

/-- A letter that arrives from a process that is no disturber was on its way. -/
theorem Action.Spares.mem_inFlight (spares : action.Spares disturber) {l : Letter}
    (origin : l ∈ e.inFlight ∨ action = .forge l) (bySender : disturber l.sender = false) :
    l ∈ e.inFlight := by
  rcases origin with sent | rfl
  · exact sent
  · have forged : disturber l.sender = true := spares
    rw [forged] at bySender
    contradiction

/-- A round leaves a process that is no disturber where it is. -/
theorem Settled.round (settled : e.Settled c disturber v) (outnumbered : Outnumbered c disturber)
    (inRange : v < c.size) {k : NodeId} {s : Establishment} {answers : Answers}
    (found : e.processes[k]? = some s) (spares : disturber k = true ∨ answers.needFlush = false)
    (faithful : disturber k = false) :
    s.round (c.siteOf k) answers = (s.sanitizePeers (c.siteOf k)).stay (c.siteOf k) := by
  have unasked := spares.resolve_left (by simp [faithful])
  exact (settled.steadfast k s found faithful).round_eq_stay outnumbered inRange unasked

theorem Settled.attend (settled : e.Settled c disturber v) (outnumbered : Outnumbered c disturber)
    (inRange : v < c.size) {k : NodeId} {s : Establishment} {answers : Answers}
    (found : e.processes[k]? = some s)
    (spares : disturber k = true ∨ answers.needFlush = false) :
    (e.attend c k answers s).Settled c disturber v := by
  have stays := settled.round outnumbered inRange found spares
  have steadfast (faithful : disturber k = false) :
      (s.round (c.siteOf k) answers).state.Steadfast (c.siteOf k) disturber v := by
    rw [stays faithful]
    exact ((settled.steadfast k s found faithful).sanitizePeers inRange).stay
  constructor
  · exact settled.sized.attend found answers
  · exact settled.steadfast.settle steadfast
  · intro l sent bySender byReceiver
    rcases List.mem_append.mp sent with before | now
    · exact settled.letters l before bySender byReceiver
    · obtain ⟨rfl, -, -, written⟩ := mem_lettersOf.mp now
      rw [written]
      exact (steadfast bySender).own
  · intro j event counted
    rcases mem_events_settle.mp counted with before | ⟨rfl, now⟩
    · exact settled.quiet j event before
    · cases faithful : disturber j with
      | true => rfl
      | false =>
          rw [stays faithful] at now
          exact absurd now List.not_mem_nil

theorem Settled.hand (settled : e.Settled c disturber v) {l : Letter}
    (honest : disturber l.sender = false → disturber l.receiver = false →
      l.content.stance = .steadyIn v) : (e.hand c l).Settled c disturber v := by
  refine ⟨settled.sized.hand l, ?_, settled.letters, settled.quiet⟩
  refine settled.steadfast.hand fun s found steadfast faithful => ?_
  exact (steadfast faithful).receive (settled.sized.tables _ s found)
    fun bySender => honest bySender faithful

theorem Settled.act (settled : e.Settled c disturber v) (outnumbered : Outnumbered c disturber)
    (inRange : v < c.size) (spares : action.Spares disturber) :
    (e.act c action).Settled c disturber v := by
  refine act_cases action settled ?_ ?_ ?_
  · rintro k s answers rfl found
    exact settled.attend outnumbered inRange found spares
  · rintro k s rfl found
    have disturbs : disturber k = true := spares
    refine ⟨settled.sized.wish found, settled.steadfast.settle fun faithful => ?_,
      settled.letters, fun j event counted => ?_⟩
    · simp [disturbs] at faithful
    · rcases mem_events_settle.mp counted with before | ⟨rfl, -⟩
      · exact settled.quiet j event before
      · exact disturbs
  · intro l remaining origin kept
    have handed := settled.hand fun bySender =>
      settled.letters l (spares.mem_inFlight origin bySender) bySender
    exact ⟨⟨handed.sized.length, handed.sized.tables⟩, handed.steadfast,
      fun m member => settled.letters m (kept m member), handed.quiet⟩

theorem Settled.run {start : Council} (settled : start.Settled c disturber v)
    (outnumbered : Outnumbered c disturber) (inRange : v < c.size) {actions : List Action}
    (spared : ∀ action ∈ actions, action.Spares disturber) :
    (start.run c actions).Settled c disturber v :=
  run_induction (P := fun e => e.Settled c disturber v) settled
    (fun _ _ spares settled => settled.act outnumbered inRange spares) actions spared

/-- All processes are steady in a view, and know and have echoed each other. -/
def gathered (c : Cluster) (v : NodeId) : Council :=
  { processes := c.nodes.map fun _ =>
      { pairs := List.replicate c.size (.steady (.id v))
        phases := List.replicate c.size .steady
        echoes := List.replicate c.size (some (.steadyIn v))
        changeWanted := false }
    inFlight := []
    events := [] }

theorem processes_gathered {k : NodeId} {s : Establishment}
    (found : (gathered c v).processes[k]? = some s) :
    k < c.size ∧ s.Sized (c.siteOf k) ∧ s.changeWanted = false ∧
      ∀ j, j < c.size → s.stanceOf j = .steadyIn v ∧ s.echoOf j = some (.steadyIn v) := by
  simp only [gathered, Cluster.nodes, List.getElem?_map, Option.map_eq_some_iff] at found
  obtain ⟨i, listed, rfl⟩ := found
  obtain ⟨member, -⟩ := List.getElem?_eq_some_iff.mp listed
  rw [List.length_range] at member
  refine ⟨member, ⟨member, List.length_replicate, List.length_replicate, List.length_replicate⟩,
    rfl, fun j inTable => ?_⟩
  simp [stanceOf, pairOf, phaseOf, echoOf, inTable, Stance.steadyIn]

theorem settled_gathered (c : Cluster) (disturber : NodeId → Bool) (v : NodeId) :
    (gathered c v).Settled c disturber v where
  sized := ⟨by simp [gathered, Cluster.nodes], fun _ _ found => (processes_gathered found).2.1⟩
  steadfast k s found _ := by
    obtain ⟨member, -, unwished, known⟩ := processes_gathered found
    exact ⟨(known k member).1, fun j inTable _ => (known j inTable).1, unwished⟩
  letters _ member := absurd member List.not_mem_nil
  quiet _ _ member := absurd member List.not_mem_nil

end Council

end QuorumList
