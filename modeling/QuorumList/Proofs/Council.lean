import QuorumList.Proofs.Ensemble
import QuorumList.Proofs.Stances

/-!
Councils.

A council runs the view establishment of the processes of a cluster.  At any time a process runs a
round or is asked for a view change, or a letter arrives.  On each link the letters arrive in the
order in which they were sent and arbitrarily late, but a letter may also stray: it arrives out of
turn, and is still on its way afterwards.  So with strays, letters arrive in any order, repeatedly
or never.  Finally somebody may forge a letter with any content in the name of its sender.

What a round has agreement do is left aside; what agreement asks for is part of the answers.
-/
namespace QuorumList

/-- An announcement on its way. -/
structure Letter where
  sender : NodeId
  receiver : NodeId
  content : Announcement
deriving DecidableEq, Repr

/-- The letter is on the link from one process to another. -/
def Letter.isOn (sender receiver : NodeId) (l : Letter) : Bool :=
  l.sender = sender && l.receiver = receiver

theorem Letter.isOn_iff {sender receiver : NodeId} {l : Letter} :
    l.isOn sender receiver = true ↔ l.sender = sender ∧ l.receiver = receiver := by
  simp [Letter.isOn]

/-- The processes of a cluster that establish a view together. -/
structure Council where
  processes : List Establishment
  /-- The letters on their way, oldest first. -/
  inFlight : List Letter
  events : List (NodeId × Event)
deriving Repr

namespace Council

/-- Something that happens in a council. -/
inductive Action where
  /-- A process runs a round, and sends a letter to each other process. -/
  | round (k : NodeId) (answers : Answers)
  /-- A process is asked for a view change. -/
  | wish (k : NodeId)
  /-- The oldest letter on a link arrives. -/
  | arrive (sender receiver : NodeId)
  /-- A letter arrives out of turn. -/
  | stray (index : Nat)
  /-- A letter arrives that nobody need have sent. -/
  | forge (letter : Letter)

/-- A letter is received. -/
def hand (c : Cluster) (e : Council) (l : Letter) : Council :=
  { e with
    processes := e.processes.modify l.receiver fun s =>
      s.receive (c.siteOf l.receiver) l.sender l.content }

/-- What becomes of a council when a process has done something. -/
def settle (k : NodeId) (outcome : Outcome Establishment) (e : Council) : Council :=
  { e with
    processes := e.processes.set k outcome.state
    events := e.events ++ outcome.events.map fun event => (k, event) }

/-- The letters that a process sends after a round. -/
def lettersOf (c : Cluster) (k : NodeId) (s : Establishment) : List Letter :=
  (s.announcements (c.siteOf k)).map fun (receiver, a) =>
    { sender := k, receiver := receiver, content := a }

/-- A process runs a round. -/
def attend (c : Cluster) (k : NodeId) (answers : Answers) (s : Establishment) (e : Council) :
    Council :=
  let outcome := s.round (c.siteOf k) answers
  { e.settle k outcome with inFlight := e.inFlight ++ lettersOf c k outcome.state }

/-- What an action makes of a council. -/
def act (c : Cluster) (e : Council) : Action → Council
  | .round k answers =>
      match e.processes[k]? with
      | none => e
      | some s => e.attend c k answers s
  | .wish k =>
      match e.processes[k]? with
      | none => e
      | some s => e.settle k s.wantChange
  | .arrive sender receiver =>
      match e.inFlight.find? (Letter.isOn sender receiver) with
      | none => e
      | some l =>
          { e.hand c l with inFlight := e.inFlight.eraseP (Letter.isOn sender receiver) }
  | .stray index =>
      match e.inFlight[index]? with
      | none => e
      | some l => e.hand c l
  | .forge l => e.hand c l

/-- What a sequence of actions makes of a council. -/
def run (c : Cluster) (e : Council) (actions : List Action) : Council :=
  actions.foldl (act c) e

/-- What holds at the start and is kept by every action of some kind holds after all runs of such
actions. -/
theorem run_induction {c : Cluster} {P : Council → Prop} {kind : Action → Prop} {start : Council}
    (base : P start) (step : ∀ e action, kind action → P e → P (e.act c action))
    (actions : List Action) (ofKind : ∀ action ∈ actions, kind action) : P (start.run c actions) :=
  List.foldlRecOn _ _ base fun e holds action member => step e action (ofKind action member) holds

variable {c : Cluster} {e : Council} {k j : NodeId} {s t : Establishment}

/-- What an action can make of a council: nothing, a round, a wish, or a letter is received that was
on its way or is forged. -/
theorem act_cases {P : Council → Prop} (action : Action) (nothing : P e)
    (rounding : ∀ k s answers, action = .round k answers → e.processes[k]? = some s →
      P (e.attend c k answers s))
    (wishing : ∀ k s, action = .wish k → e.processes[k]? = some s → P (e.settle k s.wantChange))
    (receiving : ∀ l remaining, l ∈ e.inFlight ∨ action = .forge l →
      (∀ m ∈ remaining, m ∈ e.inFlight) → P { e.hand c l with inFlight := remaining }) :
    P (e.act c action) := by
  cases action with
  | round k answers =>
      rw [act]
      split
      · exact nothing
      · next s found => exact rounding k s answers rfl found
  | wish k =>
      rw [act]
      split
      · exact nothing
      · next s found => exact wishing k s rfl found
  | arrive sender receiver =>
      rw [act]
      split
      · exact nothing
      · next l found =>
          exact receiving l _ (.inl (List.mem_of_find?_eq_some found))
            fun m member => List.mem_of_mem_eraseP member
  | stray index =>
      rw [act]
      split
      · exact nothing
      · next l found =>
          exact receiving l e.inFlight (.inl (List.mem_of_getElem? found)) fun m member => member
  | forge l => exact receiving l e.inFlight (.inr rfl) fun m member => member

/-! ### Processes -/

theorem processes_settle {outcome : Outcome Establishment}
    (found : (e.settle k outcome).processes[j]? = some t) :
    (j = k ∧ t = outcome.state) ∨ (j ≠ k ∧ e.processes[j]? = some t) := by
  simp only [settle, List.getElem?_set] at found
  by_cases same : k = j
  · rw [if_pos same] at found
    split at found
    · exact .inl ⟨same.symm, (Option.some.inj found).symm⟩
    · contradiction
  · rw [if_neg same] at found
    exact .inr ⟨Ne.symm same, found⟩

/-- What has happened before, or has happened to this process now. -/
theorem mem_events_settle {outcome : Outcome Establishment} {event : Event} :
    (j, event) ∈ (e.settle k outcome).events ↔
      (j, event) ∈ e.events ∨ j = k ∧ event ∈ outcome.events := by
  simp only [settle, List.mem_append, List.mem_map, Prod.mk.injEq]
  constructor
  · rintro (before | ⟨event, happened, rfl, rfl⟩)
    · exact .inl before
    · exact .inr ⟨rfl, happened⟩
  · rintro (before | ⟨rfl, happened⟩)
    · exact .inl before
    · exact .inr ⟨event, happened, rfl, rfl⟩

theorem processes_hand {l : Letter} (found : (e.hand c l).processes[j]? = some t) :
    ∃ s, e.processes[j]? = some s ∧
      ((j = l.receiver ∧ t = s.receive (c.siteOf j) l.sender l.content) ∨
        (j ≠ l.receiver ∧ t = s)) := by
  simp only [hand, List.getElem?_modify, Option.map_eq_map, Option.map_eq_some_iff] at found
  obtain ⟨s, before, rfl⟩ := found
  refine ⟨s, before, ?_⟩
  by_cases same : l.receiver = j
  · left
    simp [same]
  · right
    simp [same, Ne.symm same]

/-- Every process of a council has a property. -/
def All (P : NodeId → Establishment → Prop) (e : Council) : Prop :=
  ∀ k s, e.processes[k]? = some s → P k s

theorem All.settle {P : NodeId → Establishment → Prop} {outcome : Outcome Establishment}
    (all : e.All P) (changed : P k outcome.state) : (e.settle k outcome).All P := by
  intro j t found
  rcases processes_settle found with ⟨rfl, rfl⟩ | ⟨_, before⟩
  · exact changed
  · exact all j t before

theorem All.hand {P : NodeId → Establishment → Prop} {l : Letter} (all : e.All P)
    (received : ∀ s, e.processes[l.receiver]? = some s → P l.receiver s →
      P l.receiver (s.receive (c.siteOf l.receiver) l.sender l.content)) :
    (e.hand c l).All P := by
  intro k t found
  obtain ⟨s, before, ⟨rfl, rfl⟩ | ⟨_, rfl⟩⟩ := processes_hand found
  · exact received s before (all _ s before)
  · exact all k t before

/-- There are all processes of the cluster, and each has a place for each in its tables. -/
structure Sized (c : Cluster) (e : Council) : Prop where
  length : e.processes.length = c.size
  tables : e.All fun k s => s.Sized (c.siteOf k)

theorem Sized.found (sized : e.Sized c) (member : k < c.size) :
    ∃ s, e.processes[k]? = some s :=
  ⟨_, List.getElem?_eq_getElem (sized.length ▸ member)⟩

theorem Sized.settle (sized : e.Sized c) {outcome : Outcome Establishment}
    (changed : outcome.state.Sized (c.siteOf k)) : (e.settle k outcome).Sized c :=
  ⟨by rw [← sized.length]; exact List.length_set, sized.tables.settle changed⟩

theorem Sized.attend (sized : e.Sized c) (found : e.processes[k]? = some s) (answers : Answers) :
    (e.attend c k answers s).Sized c :=
  have settled := sized.settle ((sized.tables k s found).round answers)
  ⟨settled.length, settled.tables⟩

theorem Sized.wish (sized : e.Sized c) (found : e.processes[k]? = some s) :
    (e.settle k s.wantChange).Sized c :=
  have before := sized.tables k s found
  sized.settle ⟨before.member, before.pairs, before.phases, before.echoes⟩

theorem Sized.hand (sized : e.Sized c) (l : Letter) : (e.hand c l).Sized c :=
  ⟨by rw [← sized.length]; exact List.length_modify .., sized.tables.hand fun _ _ before =>
    before.receive _ _⟩

theorem Sized.act (sized : e.Sized c) (action : Action) : (e.act c action).Sized c := by
  refine act_cases action sized ?_ ?_ ?_
  · intro k s answers _ found
    exact sized.attend found answers
  · intro k s _ found
    exact sized.wish found
  · intro l remaining _ _
    have handed := sized.hand l
    exact ⟨handed.length, handed.tables⟩

theorem Sized.run (sized : e.Sized c) (actions : List Action) : (e.run c actions).Sized c :=
  List.foldlRecOn _ _ sized fun _ sized action _ => sized.act action

/-- A process sends a letter to each other process, with its own stance and what it saw there. -/
theorem mem_lettersOf {l : Letter} :
    l ∈ lettersOf c k s ↔ l.sender = k ∧ l.receiver < c.size ∧ l.receiver ≠ k ∧
      l.content = { stance := s.own (c.siteOf k), echo := s.stanceOf l.receiver } := by
  simp only [lettersOf, Establishment.announcements, List.map_map, List.mem_map, Site.others,
    List.mem_filter, Cluster.nodes, List.mem_range, Function.comp_apply]
  obtain ⟨sender, receiver, content⟩ := l
  constructor
  · rintro ⟨j, ⟨inRange, other⟩, sent⟩
    cases sent
    exact ⟨rfl, inRange, of_decide_eq_true other, rfl⟩
  · rintro ⟨sent, inRange, other, written⟩
    dsimp only at sent inRange other written
    rw [sent, written]
    exact ⟨receiver, ⟨inRange, decide_eq_true other⟩, rfl⟩

theorem exists_letter (other : j ≠ k) (inRange : j < c.size) :
    ∃ l ∈ lettersOf c k s, l.sender = k ∧ l.receiver = j :=
  ⟨{ sender := k, receiver := j, content := ⟨s.own (c.siteOf k), s.stanceOf j⟩ },
    mem_lettersOf.mpr ⟨rfl, inRange, other, rfl⟩, rfl, rfl⟩

end Council

end QuorumList
