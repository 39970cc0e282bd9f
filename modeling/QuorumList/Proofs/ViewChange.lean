import QuorumList.Proofs.LockStep

/-!
View changes without faults.

When nobody misbehaves, who starts over during a view change?  A process can do so that has heard
too little of the others: it sees some of them before the change, some on the way and some behind
it, and of each kind too few.  A process that sees all of them on two steps does not start over; nor
does any process in lock-step, nor in a cluster that is laid out for no faults at all.
-/
namespace QuorumList

namespace Establishment

variable {site : Site} {s : Establishment} {x y : Stance}

theorem SeesTwo.sanitizePeers (two : s.SeesTwo site x y) (several : 2 ≤ site.cluster.size)
    (first : x.IsStep site.cluster.size) (second : y.IsStep site.cluster.size) :
    (s.sanitizePeers site).SeesTwo site x y := by
  intro j inRange
  have legit : (s.stanceOf j).legit site.cluster.size = true := by
    rcases two j inRange with same | same
    · rw [same]
      exact first.legit several
    · rw [same]
      exact second.legit several
  rw [stanceOf_sanitizePeers_of_legit legit]
  exact two j inRange

/-- A round of a process that sees all processes on two steps does not start over. -/
theorem SeesTwo.reset_not_mem_round (two : s.SeesTwo site x y) (sized : s.Sized site)
    (several : 2 ≤ site.cluster.size) (large : 6 * site.cluster.faults + 1 ≤ site.cluster.size)
    (first : x.IsStep site.cluster.size) (second : y.IsStep site.cluster.size) {answers : Answers}
    (unasked : answers.needFlush = false) : .reset ∉ (s.round site answers).events := by
  have tidied := two.sanitizePeers several first second
  have same := own_sanitizePeers site s
  rcases two site.me sized.member with own | own
  · obtain rfl : s.own site = x := own
    rw [round_eq_perform (first.legit several) unasked]
    rw [← same] at tidied first
    exact reset_not_mem_events_perform (tidied.select_ne_reset several large first second)
  · obtain rfl : s.own site = y := own
    rw [round_eq_perform (second.legit several) unasked]
    rw [← same] at tidied second
    exact reset_not_mem_events_perform (tidied.symm.select_ne_reset several large second first)

end Establishment

namespace Council

open Establishment

variable {c : Cluster} {e start : Council} {v : NodeId}

/-- Agreement asks nobody for a flush, and nobody forges letters. -/
def Action.Faultless : Action → Prop
  | .round _ answers => answers.needFlush = false
  | .forge _ => False
  | _ => True

/-- All processes have legitimate stances. -/
structure Legitimate (c : Cluster) (e : Council) : Prop where
  sized : e.Sized c
  legit : e.All fun k s => (s.own (c.siteOf k)).legit c.size = true

theorem Legitimate.act (legitimate : e.Legitimate c) (several : 2 ≤ c.size) (action : Action) :
    (e.act c action).Legitimate c := by
  refine act_cases action legitimate ?_ ?_ ?_
  · rintro k s answers - found
    have sized := legitimate.sized.tables k s found
    have legit := legitimate.legit k s found
    exact ⟨legitimate.sized.attend found answers,
      legitimate.legit.settle (legit_own_round sized several legit answers)⟩
  · rintro k s - found
    exact ⟨legitimate.sized.wish found, legitimate.legit.settle (legitimate.legit k s found)⟩
  · intro l remaining _ _
    have handed := legitimate.sized.hand l
    refine ⟨⟨handed.length, handed.tables⟩, legitimate.legit.hand fun s _ legit => ?_⟩
    rw [own_receive]
    exact legit

theorem Legitimate.run (legitimate : e.Legitimate c) (several : 2 ≤ c.size)
    (actions : List Action) : (e.run c actions).Legitimate c :=
  List.foldlRecOn _ _ legitimate fun _ legitimate action _ => legitimate.act several action

/-- Where no faults are expected, an action without faults makes nobody start over. -/
theorem NoReset.act (noReset : e.NoReset) (legitimate : e.Legitimate c) (noFaults : c.faults = 0)
    {action : Action} (faultless : action.Faultless) : (e.act c action).NoReset := by
  refine act_cases (P := NoReset) action noReset ?_ ?_ ?_
  · rintro k s answers rfl found
    have legit := legitimate.legit k s found
    refine noReset.settle ?_
    rw [round_eq_perform legit faultless]
    refine reset_not_mem_events_perform
      (select_ne_reset_of_no_faults (legitimate.sized.tables k s found).member noFaults ?_)
    rw [own_sanitizePeers]
    exact legit
  · rintro k s - -
    exact noReset.wish
  · intro l remaining _ _
    exact noReset

theorem Settled.legitimate (settled : start.Settled c (fun _ => false) v) (inRange : v < c.size) :
    start.Legitimate c := by
  refine ⟨settled.sized, fun k s found => ?_⟩
  exact (settled.steadfast k s found rfl).legit inRange

theorem Settled.noReset (settled : start.Settled c (fun _ => false) v) : start.NoReset :=
  fun k counted => Bool.false_ne_true (settled.quiet k .reset counted)

theorem Settled.inStep (settled : start.Settled c (fun _ => false) v) (inRange : v < c.size)
    (landed : start.inFlight = []) : start.InStep c (.steadyIn v) := by
  have standing {k : NodeId} (member : k < c.size) : start.standing c k = .steadyIn v := by
    obtain ⟨s, found⟩ := settled.sized.found member
    rw [standing_eq found, (settled.steadfast k s found rfl).own]
  constructor
  · exact settled.sized
  · exact ⟨⟨v, inRange, .inl rfl⟩, fun j member => .inl (standing member)⟩
  · intro k s found j member
    rw [(settled.steadfast k s found rfl).sees j member rfl, standing member]
  · exact landed
  · exact settled.noReset

/-- Processes begin steady in a view and know each other, and none misbehaves.  If the cluster is
laid out for no faults then nobody starts over.  In any case, whoever starts over has selected to do
so, and sees the processes on more than two steps; and in lock-step nobody starts over. -/
theorem fault_free_change_resets (several : 2 ≤ c.size) (large : 6 * c.faults + 1 ≤ c.size)
    (inRange : v < c.size) (settled : start.Settled c (fun _ => false) v) :
    (c.faults = 0 → ∀ actions, (∀ action ∈ actions, Action.Faultless action) →
      (start.run c actions).NoReset) ∧
    (∀ actions, (∀ action ∈ actions, Action.Faultless action) →
      (start.run c actions).All fun k s => ∀ answers : Answers, answers.needFlush = false →
        .reset ∈ (s.round (c.siteOf k) answers).events →
          (s.sanitizePeers (c.siteOf k)).select (c.siteOf k) = .reset ∧
          ∀ x y, x.IsStep c.size → y.IsStep c.size → ¬ s.SeesTwo (c.siteOf k) x y) ∧
    (start.inFlight = [] → ∀ ps : List Pulse, (∀ p ∈ ps, ∀ k, (p.answers k).needFlush = false) →
      (start.pulses c ps).NoReset) := by
  have legitimate := settled.legitimate inRange
  refine ⟨fun noFaults actions faultless => ?_,
    fun actions _ k s found answers unasked resets => ?_, fun landed ps unasked => ?_⟩
  · exact (run_induction (P := fun e => e.Legitimate c ∧ e.NoReset)
      ⟨legitimate, settled.noReset⟩
      (fun _ action faultless ⟨legitimate, noReset⟩ => ⟨legitimate.act several action,
        noReset.act legitimate noFaults faultless⟩) actions faultless).2
  · have after := legitimate.run several actions
    constructor
    · rw [round_eq_perform (after.legit k s found) unasked] at resets
      by_cases selected : (s.sanitizePeers (c.siteOf k)).select (c.siteOf k) = .reset
      · exact selected
      · exact absurd resets (reset_not_mem_events_perform selected)
    · intro x y first second two
      exact two.reset_not_mem_round (after.sized.tables k s found) several large first second
        unasked resets
  · obtain ⟨x, inStep⟩ := (settled.inStep inRange landed).pulses several large unasked
    exact inStep.noReset

/-- All of seven processes are asked for a view change, and run two rounds in lock-step. -/
def unanimous : List Pulse :=
  [ { wishes := [0, 1, 2, 3, 4, 5, 6], answers := fun _ => .unavailable },
    { wishes := [], answers := fun _ => .unavailable } ]

/-- Seven processes move to the next view together, and nobody starts over. -/
theorem unanimous_change_without_reset :
    ((gathered (.new 7 1) 0).pulses (.new 7 1) unanimous).NoReset ∧
      ((gathered (.new 7 1) 0).pulses (.new 7 1) unanimous).standing (.new 7 1) 6 =
        .steadyIn 1 := by
  have resets := fault_free_change_resets (by decide) (by decide) (by decide)
    (settled_gathered (.new 7 1) (fun _ => false) 0)
  refine ⟨resets.2.2 rfl unanimous ?_, by decide +kernel⟩
  simp [unanimous, Answers.unavailable]

/-- Like an action without faults, and letters on a link arrive in the order in which they were
sent. -/
def Action.InOrder : Action → Prop
  | .round _ answers => answers.needFlush = false
  | .wish _ => True
  | .arrive _ _ => True
  | .stray _ => False
  | .forge _ => False

/-- Five of seven processes are asked for a view change.  They announce that they are on the way,
and the first two hear it and arrive.  The sixth process hears both announcements of these, and the
first one of the other three; it has not heard of the seventh.  So it sees two processes behind the
change, three on the way, and two before it. -/
def tornRun : List Action :=
  [0, 1, 2, 3, 4].map .wish ++ [0, 1, 2, 3, 4].map (.round · .unavailable) ++
    [1, 2, 3, 4].map (.arrive · 0) ++ [0, 2, 3, 4].map (.arrive · 1) ++
    [0, 1].map (.round · .unavailable) ++
    [0, 0, 1, 1, 2, 3, 4].map (.arrive · 5) ++ [.round 5 .unavailable]

/-- A process without others is asked for a view change.  There is no other view to move to. -/
def loneRun : List Action :=
  [.wish 0, .round 0 .unavailable, .round 0 .unavailable]

/-- Without faults and with letters in order, a process may still start over during a view change:
one of seven that has heard too little, and one that is alone. -/
theorem torn_process_resets :
    (6 * (Cluster.new 7 1).faults + 1 ≤ (Cluster.new 7 1).size ∧
      (gathered (.new 7 1) 0).Settled (.new 7 1) (fun _ => false) 0 ∧
      (∀ action ∈ tornRun, action.InOrder) ∧
      (5, .reset) ∈ ((gathered (.new 7 1) 0).run (.new 7 1) tornRun).events) ∧
    (6 * (Cluster.new 1 0).faults + 1 ≤ (Cluster.new 1 0).size ∧
      (gathered (.new 1 0) 0).Settled (.new 1 0) (fun _ => false) 0 ∧
      (∀ action ∈ loneRun, action.InOrder) ∧
      (0, .reset) ∈ ((gathered (.new 1 0) 0).run (.new 1 0) loneRun).events) := by
  refine ⟨⟨by decide, settled_gathered _ _ _, ?_, by decide +kernel⟩,
    ⟨by decide, settled_gathered _ _ _, ?_, by decide +kernel⟩⟩
  · simp [tornRun, Action.InOrder, Answers.unavailable]
  · simp [loneRun, Action.InOrder, Answers.unavailable]

end Council

end QuorumList
