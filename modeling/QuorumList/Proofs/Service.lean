import QuorumList.Proofs.Stability

/-!
Serving a view that some processes cannot disturb.

A process of a settled council serves its view while `4F + 1` processes, itself included, have
echoed its stance to it.  Disturbers can take their echoes back at any time, so those of the others
have to suffice.  What the others announce from now on echoes the steady stance, for this is how
they see each other.  But what they announced before may still be on its way, and may echo something
older: when it arrives, its receiver has lost a witness, and it depends on the next letter whether
the witness returns.  So a process is served for good if and only if there are `4F + 1` processes,
itself included, that are no disturbers and have nothing on its way to it that echoes anything but
the steady stance.
-/
namespace QuorumList

namespace Council

open Establishment

variable {c : Cluster} {disturber : NodeId → Bool} {v j k : NodeId} {e start : Council}
variable {s : Establishment} {action : Action} {l : Letter}

/-! ### Echoes of the steady stance -/

/-- Process `k` has recorded that `j` has echoed the steady stance to it. -/
def Recorded (v j k : NodeId) (e : Council) : Prop :=
  ∀ s, e.processes[k]? = some s → s.echoOf j = some (.steadyIn v)

/-- Whatever is on its way from one process to another echoes the steady stance. -/
def EchoesOnly (v sender receiver : NodeId) (e : Council) : Prop :=
  ∀ l ∈ e.inFlight, l.isOn sender receiver = true → l.content.echo = .steadyIn v

instance (v sender receiver : NodeId) (e : Council) : Decidable (e.EchoesOnly v sender receiver) :=
  inferInstanceAs (Decidable (∀ l ∈ e.inFlight, _ → _))

/-- One process has echoed the steady stance to another, and nothing on its way there echoes anything
else. -/
structure Echoing (v j k : NodeId) (e : Council) : Prop where
  recorded : e.Recorded v j k
  letters : e.EchoesOnly v j k

/-- A letter changes only what its receiver has recorded of its sender's echo. -/
theorem echoOf_hand (sized : e.Sized c) {t : Establishment}
    (now : (e.hand c l).processes[k]? = some t) (j : NodeId) :
    ∃ s, e.processes[k]? = some s ∧
      (t.echoOf j = s.echoOf j ∨ l.isOn j k = true ∧ t.echoOf j = some l.content.echo) := by
  obtain ⟨s, found, ⟨rfl, rfl⟩ | ⟨-, rfl⟩⟩ := processes_hand now
  · refine ⟨s, found, ?_⟩
    by_cases same : j = l.sender
    · subst same
      rcases stanceOf_receive_eq_or (sized.tables _ s found) l.sender l.content with
        ⟨-, unchanged⟩ | ⟨-, -, shown⟩
      · exact .inl unchanged
      · exact .inr ⟨Letter.isOn_iff.mpr ⟨rfl, rfl⟩, shown⟩
    · exact .inl (stanceOf_receive_of_ne same _).2
  · exact ⟨t, found, .inl rfl⟩

namespace Echoing

theorem attend (echoing : e.Echoing v j k) (settled : e.Settled c disturber v)
    (outnumbered : Outnumbered c disturber) (inRange : v < c.size)
    (bySender : disturber j = false) (byReceiver : disturber k = false) {i : NodeId}
    {answers : Answers} (found : e.processes[i]? = some s)
    (spares : disturber i = true ∨ answers.needFlush = false) :
    (e.attend c i answers s).Echoing v j k := by
  have after := settled.attend outnumbered inRange found spares
  constructor
  · intro t now
    rcases processes_settle now with ⟨rfl, rfl⟩ | ⟨-, before⟩
    · rw [settled.round outnumbered inRange found spares byReceiver]
      exact echoing.recorded s found
    · exact echoing.recorded t before
  · intro l sent onLink
    rcases List.mem_append.mp sent with before | now
    · exact echoing.letters l before onLink
    · -- The sender echoes how it sees the receiver, and it goes on to see it steady.
      obtain ⟨rfl, rfl⟩ := Letter.isOn_iff.mp onLink
      obtain ⟨rfl, listed, -, written⟩ := mem_lettersOf.mp now
      have inTable : l.sender < e.processes.length := (List.getElem?_eq_some_iff.mp found).1
      have acted : (e.attend c l.sender answers s).processes[l.sender]? =
          some (s.round (c.siteOf l.sender) answers).state := List.getElem?_set_self inTable
      rw [written]
      exact (after.steadfast _ _ acted bySender).sees _ listed byReceiver

theorem hand (echoing : e.Echoing v j k) (sized : e.Sized c)
    (honest : l.isOn j k = true → l.content.echo = .steadyIn v) :
    (e.hand c l).Echoing v j k := by
  refine ⟨fun t now => ?_, echoing.letters⟩
  obtain ⟨s, found, unchanged | ⟨onLink, shown⟩⟩ := echoOf_hand sized now j
  · rw [unchanged]
    exact echoing.recorded s found
  · rw [shown, honest onLink]

theorem act (echoing : e.Echoing v j k) (settled : e.Settled c disturber v)
    (outnumbered : Outnumbered c disturber) (inRange : v < c.size)
    (bySender : disturber j = false) (byReceiver : disturber k = false)
    (spares : action.Spares disturber) : (e.act c action).Echoing v j k := by
  refine act_cases action echoing ?_ ?_ ?_
  · rintro i s answers rfl found
    exact echoing.attend settled outnumbered inRange bySender byReceiver found spares
  · rintro i s rfl found
    refine ⟨fun t now => ?_, echoing.letters⟩
    rcases processes_settle now with ⟨rfl, rfl⟩ | ⟨-, before⟩
    · exact echoing.recorded s found
    · exact echoing.recorded t before
  · intro l remaining origin kept
    have handed := echoing.hand settled.sized (l := l) fun onLink =>
      echoing.letters l (spares.mem_inFlight origin ((Letter.isOn_iff.mp onLink).1 ▸ bySender))
        onLink
    exact ⟨handed.recorded, fun m member => echoing.letters m (kept m member)⟩

theorem run (echoing : start.Echoing v j k) (settled : start.Settled c disturber v)
    (outnumbered : Outnumbered c disturber) (inRange : v < c.size)
    (bySender : disturber j = false) (byReceiver : disturber k = false) {actions : List Action}
    (spared : ∀ action ∈ actions, action.Spares disturber) :
    (start.run c actions).Echoing v j k :=
  (run_induction (P := fun e => e.Settled c disturber v ∧ e.Echoing v j k) ⟨settled, echoing⟩
    (fun _ _ spares ⟨settled, echoing⟩ => ⟨settled.act outnumbered inRange spares,
      echoing.act settled outnumbered inRange bySender byReceiver spares⟩) actions spared).2

end Echoing

/-! ### Echoes of anything else -/

/-- Process `k` has not recorded that `j` has echoed the steady stance to it. -/
def Missing (v j k : NodeId) (e : Council) : Prop :=
  ∀ s, e.processes[k]? = some s → s.echoOf j ≠ some (.steadyIn v)

/-- A letter that echoes anything else brings no echo of the steady stance. -/
theorem Missing.hand (missing : e.Missing v j k) (sized : e.Sized c)
    (other : l.content.echo ≠ .steadyIn v) : (e.hand c l).Missing v j k := by
  intro t now
  obtain ⟨s, found, unchanged | ⟨-, shown⟩⟩ := echoOf_hand sized now j
  · rw [unchanged]
    exact missing s found
  · rw [shown]
    exact fun same => other (Option.some.inj same)

theorem Missing.foldl_hand (missing : e.Missing v j k) (sized : e.Sized c) {letters : List Letter}
    (others : ∀ l ∈ letters, l.content.echo ≠ .steadyIn v) :
    (letters.foldl (Council.hand c) e).Missing v j k := by
  induction letters generalizing e with
  | nil => exact missing
  | cons l rest ih =>
      exact ih (missing.hand sized (others l List.mem_cons_self)) (sized.hand l)
        fun m listed => others m (List.mem_cons_of_mem _ listed)

/-- A letter that echoes anything else takes the echo of the steady stance away. -/
theorem missing_hand (sized : e.Sized c) (peer : (c.siteOf l.receiver).isPeer l.sender = true)
    (valid : l.content.valid c.size = true) (other : l.content.echo ≠ .steadyIn v) :
    (e.hand c l).Missing v l.sender l.receiver := by
  intro t now
  obtain ⟨s, found, ⟨-, rfl⟩ | ⟨elsewhere, -⟩⟩ := processes_hand now
  · rw [(stanceOf_receive (sized.tables _ s found) peer valid).2]
    exact fun same => other (Option.some.inj same)
  · exact absurd rfl elsewhere

/-- After letters that all echo anything else, the echo of each of their senders is missing. -/
theorem missing_foldl_hand (sized : e.Sized c) {letters : List Letter}
    (others : ∀ l ∈ letters, l.content.echo ≠ .steadyIn v) (member : l ∈ letters)
    (peer : (c.siteOf l.receiver).isPeer l.sender = true)
    (valid : l.content.valid c.size = true) :
    (letters.foldl (hand c) e).Missing v l.sender l.receiver := by
  obtain ⟨before, after, rfl⟩ := List.append_of_mem member
  rw [List.foldl_append, List.foldl_cons]
  have reached : (before.foldl (hand c) e).Sized c :=
    List.foldlRecOn _ _ sized fun _ sized l _ => sized.hand l
  have taken := missing_hand reached peer valid (others l member)
  exact taken.foldl_hand (reached.hand l) fun m listed =>
    others m (List.mem_append_right _ (List.mem_cons_of_mem _ listed))

/-- Letters that are on their way can all stray, and disturbers can send any. -/
theorem exists_run_eq_foldl_hand (letters : List Letter)
    (available : ∀ l ∈ letters, l ∈ e.inFlight ∨ disturber l.sender = true) :
    ∃ actions : List Action, (∀ action ∈ actions, action.Spares disturber) ∧
      e.run c actions = letters.foldl (hand c) e := by
  induction letters generalizing e with
  | nil => exact ⟨[], by simp, rfl⟩
  | cons l rest ih =>
      obtain ⟨actions, spared, reached⟩ := ih (e := e.hand c l) fun m member =>
        available m (List.mem_cons_of_mem _ member)
      rcases available l List.mem_cons_self with sent | forged
      · obtain ⟨i, found⟩ := List.mem_iff_getElem?.mp sent
        refine ⟨.stray i :: actions, List.forall_mem_cons.mpr ⟨trivial, spared⟩, ?_⟩
        rw [List.foldl_cons, ← reached]
        simp [run, act, found]
      · refine ⟨.forge l :: actions, List.forall_mem_cons.mpr ⟨forged, spared⟩, ?_⟩
        rw [List.foldl_cons, ← reached]
        rfl

/-! ### Service -/

/-- The process is in the view, as far as itself knows. -/
def Serves (c : Cluster) (v k : NodeId) (e : Council) : Prop :=
  ∃ s, e.processes[k]? = some s ∧ s.currentView (c.siteOf k) k = .id v

/-- The process serves the view all the time, whatever disturbers do. -/
def StaysServed (c : Cluster) (disturber : NodeId → Bool) (v k : NodeId) (start : Council) : Prop :=
  ∀ actions : List Action, (∀ action ∈ actions, action.Spares disturber) →
    (start.run c actions).Serves c v k

/-- A process serves the view while enough processes, itself included, have echoed it. -/
theorem Settled.serves_iff (settled : e.Settled c disturber v)
    (outnumbered : Outnumbered c disturber) (inRange : v < c.size) (member : k < c.size)
    (faithful : disturber k = false) (found : e.processes[k]? = some s) :
    e.Serves c v k ↔
      c.establishQuorum ≤ c.nodes.countP fun j => j = k || s.echoOf j = some (.steadyIn v) := by
  have steadfast := settled.steadfast k s found faithful
  have served := steadfast.currentView_eq_id_iff outnumbered inRange member rfl
  have own : s.own (c.siteOf k) = .steadyIn v := steadfast.own
  have counted : s.witness (c.siteOf k) = fun j => j = k || s.echoOf j = some (.steadyIn v) := by
    funext j
    rw [witness, own]
    rfl
  rw [Serves, found]
  simp only [Option.some.injEq, exists_eq_left']
  refine served.trans ?_
  rw [witnessed, counted, decide_eq_true_eq]
  rfl

/-- What can be handed to a process to shake its confidence: all letters on their way that do not
echo the steady stance, and one from each disturber. -/
def doubts (c : Cluster) (disturber : NodeId → Bool) (v k : NodeId) (e : Council) : List Letter :=
  e.inFlight.filter (fun l => l.content.echo ≠ .steadyIn v) ++
    (c.nodes.filter disturber).map fun j =>
      { sender := j, receiver := k, content := { stance := .steadyIn v, echo := .reset } }

theorem mem_doubts : l ∈ e.doubts c disturber v k ↔
    (l ∈ e.inFlight ∧ l.content.echo ≠ .steadyIn v) ∨
      (l.sender < c.size ∧ disturber l.sender = true ∧ l.receiver = k ∧
        l.content = { stance := .steadyIn v, echo := .reset }) := by
  simp only [doubts, List.mem_append, List.mem_filter, decide_eq_true_eq, List.mem_map,
    Cluster.nodes, List.mem_range]
  refine or_congr_right ⟨?_, ?_⟩
  · rintro ⟨j, ⟨inTable, disturbs⟩, rfl⟩
    exact ⟨inTable, disturbs, rfl, rfl⟩
  · rintro ⟨inTable, disturbs, rfl, written⟩
    exact ⟨l.sender, ⟨inTable, disturbs⟩, by rw [← written]⟩

/-- After all doubts have been handed to a process, whoever it still has an echo of the steady stance
from is no disturber, and nothing on its way from there echoes anything else. -/
theorem Settled.exists_doubting_run (settled : start.Settled c disturber v) (inRange : v < c.size)
    (faithful : disturber k = false) :
    ∃ actions : List Action, (∀ action ∈ actions, action.Spares disturber) ∧
      ∀ s, (start.run c actions).processes[k]? = some s → ∀ j, j < c.size → j ≠ k →
        s.echoOf j = some (.steadyIn v) → disturber j = false ∧ start.EchoesOnly v j k := by
  have others : ∀ l ∈ start.doubts c disturber v k, l.content.echo ≠ .steadyIn v := by
    intro l doubtful
    rcases mem_doubts.mp doubtful with ⟨-, differs⟩ | ⟨-, -, -, written⟩
    · exact differs
    · rw [written]
      exact fun same => nomatch same
  obtain ⟨actions, spared, reached⟩ := exists_run_eq_foldl_hand (c := c)
    (start.doubts c disturber v k) fun l doubtful =>
      (mem_doubts.mp doubtful).imp And.left fun forged => forged.2.1
  refine ⟨actions, spared, fun s found j inTable other echoed => ?_⟩
  rw [reached] at found
  have undoubted {l} (doubtful : l ∈ start.doubts c disturber v k) (onLink : l.isOn j k = true)
      (shows : l.content.stance = .steadyIn v) : False := by
    obtain ⟨rfl, rfl⟩ := Letter.isOn_iff.mp onLink
    have valid : l.content.valid c.size = true := by
      rw [Announcement.valid, shows]
      exact Stance.legit_steadyIn inRange
    exact missing_foldl_hand settled.sized others doubtful
      (Site.isPeer_iff.mpr ⟨other, inTable⟩) valid s found echoed
  have honest : disturber j = false := by
    refine Bool.eq_false_iff.mpr fun disturbs => undoubted
      (l := { sender := j, receiver := k, content := ⟨.steadyIn v, .reset⟩ }) ?_ ?_ rfl
    · exact mem_doubts.mpr (.inr ⟨inTable, disturbs, rfl, rfl⟩)
    · exact Letter.isOn_iff.mpr ⟨rfl, rfl⟩
  refine ⟨honest, fun l sent onLink => Decidable.byContradiction fun differs => ?_⟩
  obtain ⟨rfl, rfl⟩ := Letter.isOn_iff.mp onLink
  exact undoubted (mem_doubts.mpr (.inl ⟨sent, differs⟩)) onLink
    (settled.letters l sent honest faithful)

/-- A process that has recorded the echoes of all others but the disturbers is served for good
exactly if enough processes have nothing on its way to it that echoes anything else. -/
theorem Settled.staysServed_iff (settled : start.Settled c disturber v)
    (outnumbered : Outnumbered c disturber) (inRange : v < c.size) (member : k < c.size)
    (faithful : disturber k = false)
    (recorded : ∀ j, j < c.size → j ≠ k → disturber j = false → start.Recorded v j k) :
    start.StaysServed c disturber v k ↔
      c.establishQuorum ≤
        c.nodes.countP fun j => !disturber j && (j = k || start.EchoesOnly v j k) := by
  constructor
  · intro served
    obtain ⟨actions, spared, doubting⟩ := settled.exists_doubting_run inRange faithful
    have after := settled.run outnumbered inRange spared
    obtain ⟨s, found⟩ := after.sized.found member
    have quorum := (after.serves_iff outnumbered inRange member faithful found).mp
      (served actions spared)
    refine Nat.le_trans quorum (List.countP_mono_left fun j listed counted => ?_)
    simp only [Bool.or_eq_true, decide_eq_true_eq] at counted
    by_cases itself : j = k
    · simp [itself, faithful]
    · have left := doubting s found j (List.mem_range.mp listed) itself
        (counted.resolve_left itself)
      simp [left.1, left.2]
  · intro quorum actions spared
    have after := settled.run outnumbered inRange spared
    obtain ⟨s, found⟩ := after.sized.found member
    refine (after.serves_iff outnumbered inRange member faithful found).mpr
      (Nat.le_trans quorum (List.countP_mono_left fun j listed counted => ?_))
    simp only [Bool.and_eq_true, Bool.not_eq_true', Bool.or_eq_true, decide_eq_true_eq] at counted
    obtain ⟨honest, counted⟩ := counted
    by_cases itself : j = k
    · simp [itself]
    · have echoing : start.Echoing v j k :=
        ⟨recorded j (List.mem_range.mp listed) itself honest, counted.resolve_left itself⟩
      have echoed := (echoing.run settled outnumbered inRange honest faithful spared).recorded
      simp [echoed s found]

/-- Processes that are steady in a view stay so whatever outnumbered disturbers send and in whatever
order letters arrive: none adopts, proposes, resets or flushes.  One that has recorded the echoes of
the others serves the view all the time if these are enough and nothing on its way to it echoes
anything else; and exactly if enough of them have nothing else on its way. -/
theorem stable_under_disturbers (outnumbered : Outnumbered c disturber) (inRange : v < c.size)
    (settled : start.Settled c disturber v) :
    (∀ actions : List Action, (∀ action ∈ actions, action.Spares disturber) →
      let now := start.run c actions
      (∀ k event, (k, event) ∈ now.events → disturber k = true) ∧
        ∀ k, k < c.size → disturber k = false → ∃ s, now.processes[k]? = some s ∧
          s.own (c.siteOf k) = .steadyIn v ∧
          (s.sanitizePeers (c.siteOf k)).select (c.siteOf k) = .stay ∧
          ∀ answers : Answers, answers.needFlush = false →
            s.round (c.siteOf k) answers = (s.sanitizePeers (c.siteOf k)).stay (c.siteOf k)) ∧
      ∀ k, k < c.size → disturber k = false →
        (∀ j, j < c.size → j ≠ k → disturber j = false → start.Recorded v j k) →
        (c.establishQuorum ≤ c.nodes.countP (fun j => !disturber j) →
            (∀ j, j < c.size → j ≠ k → disturber j = false → start.EchoesOnly v j k) →
            start.StaysServed c disturber v k) ∧
          (start.StaysServed c disturber v k ↔
            c.establishQuorum ≤
              c.nodes.countP fun j => !disturber j && (j = k || start.EchoesOnly v j k)) := by
  refine ⟨fun actions spared => ?_, fun k member faithful recorded => ?_⟩
  · have after := settled.run outnumbered inRange spared
    refine ⟨after.quiet, fun k member faithful => ?_⟩
    obtain ⟨s, found⟩ := after.sized.found member
    have steadfast := after.steadfast k s found faithful
    exact ⟨s, found, steadfast.own,
      (steadfast.sanitizePeers inRange).select_eq_stay outnumbered inRange,
      fun answers unasked => steadfast.round_eq_stay outnumbered inRange unasked⟩
  · have served := settled.staysServed_iff outnumbered inRange member faithful recorded
    refine ⟨fun enough only => served.mpr (Nat.le_trans enough ?_), served⟩
    refine le_countP_of_steady fun j inTable honest => ?_
    by_cases itself : j = k
    · simp [itself, faithful]
    · simp [honest, only j inTable itself honest]

/-! ### A disturber with two faces -/

theorem recorded_of_processes_eq (inTable : j < c.size)
    (same : e.processes = (gathered c v).processes) : e.Recorded v j k := by
  intro s found
  rw [same] at found
  exact ((processes_gathered found).2.2.2 j inTable).2

/-- The first of six processes shows different stances to the others, which go on as usual. -/
def twoFaced : List Action :=
  [ .forge ⟨0, 1, { stance := .reset, echo := .reset }⟩,
    .forge ⟨0, 2, { stance := .steadyIn 3, echo := .steadyIn 3 }⟩,
    .round 1 .unavailable, .round 2 .unavailable, .arrive 1 2, .round 3 .unavailable, .stray 4,
    .forge ⟨0, 2, { stance := .leaving 6 1, echo := .steadyIn 1 }⟩, .round 2 .unavailable ]

/-- All are steady in view 1, but a letter that echoes an older stance is still on its way. -/
def lateEcho (c : Cluster) : Council :=
  { gathered c 1 with inFlight := [⟨2, 1, { stance := .steadyIn 1, echo := .leaving 6 0 }⟩] }

theorem settled_lateEcho (c : Cluster) (disturber : NodeId → Bool) :
    (lateEcho c).Settled c disturber 1 where
  sized :=
    have sized := (settled_gathered c disturber 1).sized
    ⟨sized.length, sized.tables⟩
  steadfast := (settled_gathered c disturber 1).steadfast
  letters l sent _ _ := by rw [List.mem_singleton.mp sent]
  quiet := (settled_gathered c disturber 1).quiet

/-- Five processes out of six go on to serve their view in spite of a two-faced one; and six out of
seven have a witness to spare for a letter that comes late. -/
theorem two_faced_process_outlasted :
    (∃ s, ((gathered (.new 6 1) 1).run (.new 6 1) twoFaced).processes[2]? = some s ∧
      s.own ((Cluster.new 6 1).siteOf 2) = .steadyIn 1) ∧
    ((gathered (.new 6 1) 1).run (.new 6 1) twoFaced).Serves (.new 6 1) 1 2 ∧
    (lateEcho (.new 7 1)).StaysServed (.new 7 1) (fun k => k = 0) 1 1 := by
  have spared : ∀ action ∈ twoFaced, action.Spares fun k => k = 0 := by
    simp [twoFaced, Action.Spares, Answers.unavailable]
  have ofSix : Outnumbered (.new 6 1) fun k => k = 0 := ⟨by decide, by decide⟩
  have ofSeven : Outnumbered (.new 7 1) fun k => k = 0 := ⟨by decide, by decide⟩
  have six := stable_under_disturbers ofSix (by decide) (settled_gathered (.new 6 1) _ 1)
  have seven := stable_under_disturbers ofSeven (by decide) (settled_lateEcho (.new 7 1) _)
  obtain ⟨s, found, own, -, -⟩ := (six.1 twoFaced spared).2 2 (by decide) (by decide)
  have recorded := six.2 2 (by decide) (by decide) fun j inTable _ _ =>
    recorded_of_processes_eq inTable rfl
  have served := recorded.1 (by decide) fun _ _ _ _ _ sent => absurd sent List.not_mem_nil
  have spare := seven.2 1 (by decide) (by decide) fun j inTable _ _ =>
    recorded_of_processes_eq inTable rfl
  exact ⟨⟨s, found, own⟩, served twoFaced spared, spare.2.mpr (by decide)⟩

/-- With six processes the late letter costs a witness that is needed: five have echoed each other
and announce nothing but the steady stance, the first one announces a reset, the late letter
arrives, and its receiver is in no view. -/
theorem late_echo_unserved :
    let c := Cluster.new 6 1
    let disturber : NodeId → Bool := fun k => k = 0
    let actions := [.forge ⟨0, 1, { stance := .reset, echo := .reset }⟩, .arrive 2 1]
    Outnumbered c disturber ∧ c.establishQuorum ≤ c.nodes.countP (fun j => !disturber j) ∧
      (lateEcho c).Settled c disturber 1 ∧
      (∀ j k, j < c.size → (lateEcho c).Recorded 1 j k) ∧
      (∀ action ∈ actions, action.Spares disturber) ∧
      ∃ s, ((lateEcho c).run c actions).processes[1]? = some s ∧
        s.currentView (c.siteOf 1) 1 = .tee := by
  refine ⟨⟨by decide, by decide⟩, by decide, settled_lateEcho _ _,
    fun j k inTable => recorded_of_processes_eq inTable rfl, ?_, _, rfl, by decide⟩
  simp [Action.Spares]

end Council

end QuorumList
