import QuorumList.Proofs.Portable

/-!
Assemblies of whole processes.

An assembly runs all components of all processes of a cluster, and nobody misbehaves.  Anything may
happen at any time: a component runs a round, a client submits a request, or a message that was sent
at some time arrives, as the text that it was sent as.  So messages, and the tokens among them, may
arrive late, more than once, out of order, or never.
-/
namespace QuorumList

open Json

namespace Node

/-! ### Processes that can be written down -/

/-- All components are installed, and their states can be written. -/
structure Portable (node : Node) : Prop where
  establishment : ∃ e, node.establishment = some e ∧ e.Writable node.site
  agreement : ∃ a, node.agreement = some a ∧ a.Regular node.site
  monitoring : ∃ m, node.monitoring = some m ∧ m.Writable node.site
  detection : ∃ d, node.detection = some d ∧ d.Writable node.site

end Node

/-- What is sent can be written, and mentions known clients only. -/
def Payload.Regular (c : Cluster) : Payload → Prop
  | .agreement r => r.Regular c
  | payload => payload.Writable

theorem Payload.Regular.writable {c : Cluster} {payload : Payload} (regular : payload.Regular c) :
    payload.Writable := by
  cases payload with
  | agreement r => exact Record.Regular.writable regular
  | _ => exact regular

namespace Node.Portable

variable {node : Node}

theorem new {site : Site} (member : site.me < site.cluster.size)
    (few : site.cluster.size ≤ maxSigned + 1) : (Node.new site).Portable where
  establishment := ⟨_, rfl, .new member⟩
  agreement := ⟨_, rfl, .new site⟩
  monitoring := ⟨_, rfl, .new site⟩
  detection := ⟨_, rfl, .new site few⟩

theorem count (portable : node.Portable) (events : List Event) : (node.count events).Portable :=
  ⟨portable.establishment, portable.agreement, portable.monitoring, portable.detection⟩

theorem direct (portable : node.Portable) (d : Directive) : (node.direct d).Portable := by
  cases d with
  | viewChange =>
      obtain ⟨e, installed, fits⟩ := portable.establishment
      rw [direct_viewChange, installed]
      exact ⟨⟨_, rfl, fits.of_wish true⟩, portable.agreement, portable.monitoring,
        portable.detection⟩
  | replicaFlush =>
      obtain ⟨a, installed, regular⟩ := portable.agreement
      rw [direct_replicaFlush, installed]
      exact ⟨portable.establishment, ⟨_, rfl, regular.length, regular.records, regular.queues⟩,
        portable.monitoring, portable.detection⟩
  | requestReset =>
      obtain ⟨a, installed, regular⟩ := portable.agreement
      rw [direct_requestReset, installed]
      exact ⟨portable.establishment, ⟨_, rfl, regular.length, regular.records, regular.queues⟩,
        portable.monitoring, portable.detection⟩

theorem settle (portable : node.Portable) (directives : List Directive) (events : List Event) :
    (node.settle directives events).Portable :=
  count (List.foldlRecOn _ _ portable fun _ before d _ => before.direct d) events

theorem viewOf (portable : node.Portable) (plain : node.site.switches = .none) (k : NodeId) :
    (node.answers.viewOf k).Writable := by
  obtain ⟨e, installed, fits⟩ := portable.establishment
  simp only [answers, installed]
  exact fits.currentView (by rw [plain]; rfl) k

theorem pending (portable : node.Portable) (member : node.site.me < node.site.cluster.size) :
    ∀ q ∈ node.answers.pending, q.Writable := by
  obtain ⟨a, installed, regular⟩ := portable.agreement
  simp only [answers, installed]
  exact fun q listed => ((regular.records _ member).pending q listed).writable

section Steps

variable (portable : node.Portable) (member : node.site.me < node.site.cluster.size)
  (few : node.site.cluster.size ≤ maxSigned + 1) (plain : node.site.switches = .none)
include portable member few plain

/-- A round keeps the process portable, and what it sends comes from it. -/
theorem round (component : Component) :
    (node.round component).1.Portable ∧
      ∀ m ∈ (node.round component).2,
        m.sender = node.site.me ∧ m.payload.Regular node.site.cluster := by
  have ofView := portable.viewOf plain node.site.me
  obtain ⟨e, hasE, forE⟩ := portable.establishment
  obtain ⟨a, hasA, forA⟩ := portable.agreement
  obtain ⟨m, hasM, forM⟩ := portable.monitoring
  obtain ⟨d, hasD, forD⟩ := portable.detection
  cases component with
  | establishment =>
      have after := forE.round few node.answers
      simp only [Node.round, hasE]
      refine ⟨settle ?_ _ _, fun sent listed => ?_⟩
      · exact ⟨⟨_, rfl, after⟩, portable.agreement, portable.monitoring, portable.detection⟩
      · obtain ⟨announced, inList, rfl⟩ := List.mem_map.mp listed
        exact ⟨rfl, after.announcements (by rw [plain]; rfl) inList⟩
  | agreement =>
      have after := forA.round member few ofView
      simp only [Node.round, hasA]
      refine ⟨settle ?_ _ _, fun sent listed => ?_⟩
      · exact ⟨portable.establishment, ⟨_, rfl, after⟩, portable.monitoring, portable.detection⟩
      · obtain rfl := List.mem_singleton.mp listed
        exact ⟨rfl, after.records _ member⟩
  | monitoring =>
      have after := forM.round member few ofView
      simp only [Node.round, hasM]
      refine ⟨settle ?_ _ _, fun sent listed => ?_⟩
      · exact ⟨portable.establishment, portable.agreement, ⟨_, rfl, after⟩, portable.detection⟩
      · obtain rfl := List.mem_singleton.mp listed
        exact ⟨rfl, after.own member⟩
  | detection =>
      simp only [Node.round, hasD]
      split
      · next m sent =>
          refine ⟨portable, fun _ listed => ?_⟩
          obtain rfl := List.mem_singleton.mp listed
          exact ⟨rfl, forD.broadcast sent⟩
      · refine ⟨portable, fun _ listed => ?_⟩
        obtain rfl := List.mem_singleton.mp listed
        exact ⟨rfl, trivial⟩

theorem dispatch {message : Message} (regular : message.payload.Regular node.site.cluster) :
    (node.dispatch message).Portable := by
  obtain ⟨e, hasE, forE⟩ := portable.establishment
  obtain ⟨a, hasA, forA⟩ := portable.agreement
  obtain ⟨m, hasM, forM⟩ := portable.monitoring
  obtain ⟨d, hasD, forD⟩ := portable.detection
  -- A token changes detection only.
  obtain ⟨d', forD', told⟩ : ∃ d', d'.Writable node.site ∧
      (if message.kind.isToken then
        { node with
          detection := node.detection.map fun d =>
            d.onToken node.site node.answers message.sender }
      else node) = { node with detection := some d' } := by
    by_cases token : message.kind.isToken = true
    · rw [if_pos token, hasD]
      exact ⟨_, forD.onToken few (portable.viewOf plain _) (portable.pending member) _, rfl⟩
    · rw [if_neg token]
      exact ⟨d, forD, by rw [← hasD]⟩
  unfold Node.dispatch
  dsimp only
  rw [told]
  cases payload : message.payload with
  | establishment announced =>
      rw [payload] at regular
      exact ⟨⟨_, congrArg (Option.map _) hasE, forE.receive _ regular⟩, ⟨a, hasA, forA⟩,
        ⟨m, hasM, forM⟩, ⟨d', rfl, forD'⟩⟩
  | agreement r =>
      rw [payload] at regular
      exact ⟨⟨e, hasE, forE⟩, ⟨_, congrArg (Option.map _) hasA, forA.receive _ regular⟩,
        ⟨m, hasM, forM⟩, ⟨d', rfl, forD'⟩⟩
  | monitoring o =>
      rw [payload] at regular
      exact ⟨⟨e, hasE, forE⟩, ⟨a, hasA, forA⟩,
        ⟨_, congrArg (Option.map _) hasM, forM.receive _ regular⟩, ⟨d', rfl, forD'⟩⟩
  | detection s =>
      exact ⟨⟨e, hasE, forE⟩, ⟨a, hasA, forA⟩, ⟨m, hasM, forM⟩, ⟨_, rfl, forD'.receive _ s⟩⟩
  | heartbeat => exact ⟨⟨e, hasE, forE⟩, ⟨a, hasA, forA⟩, ⟨m, hasM, forM⟩, ⟨d', rfl, forD'⟩⟩

end Steps

theorem submit (portable : node.Portable) (member : node.site.me < node.site.cluster.size)
    {q : ClientRequest} (written : q.Writable) : (node.submit q).1.Portable := by
  obtain ⟨a, hasA, forA⟩ := portable.agreement
  have after := forA.submit member written
  unfold Node.submit
  rw [hasA]
  dsimp only
  split
  · next b buffered =>
      rw [buffered] at after
      exact ⟨portable.establishment, ⟨b, rfl, after⟩, portable.monitoring, portable.detection⟩
  · exact portable.count _

end Node.Portable

/-! ### Assemblies -/

/-- The processes of a cluster, and what they have sent, oldest first. -/
structure Assembly where
  nodes : List Node
  sent : List Message

namespace Assembly

/-- Something that happens in an assembly. -/
inductive Action where
  /-- A component of a process runs a round, and its messages are sent. -/
  | run (k : NodeId) (component : Component)
  | submit (k : NodeId) (q : ClientRequest)
  /-- A message that was sent earlier arrives. -/
  | deliver (receiver : NodeId) (index : Nat)

/-- What clients submit can be written. -/
def Action.Admissible : Action → Prop
  | .submit _ q => q.Writable
  | _ => True

def start (c : Cluster) : Assembly :=
  { nodes := c.nodes.map fun k => .new (c.siteOf k)
    sent := [] }

/-- The message is for this process, which has not sent it. -/
def isFor (k : NodeId) (m : Message) : Bool :=
  m.sender ≠ k && m.receiver.all (· = k)

/-- A message arrives as the text that it was sent as. -/
def arrive (m : Message) (node : Node) : Node :=
  (node.onMessage m.sender (.ofString m.encode)).1

/-- A message is handed over as it was meant. -/
def hand (m : Message) (node : Node) : Node :=
  (node.count [.messageReceived]).dispatch m

/-- What an action makes of an assembly with some way to receive messages. -/
def actWith (receive : Message → Node → Node) (e : Assembly) : Action → Assembly
  | .run k component =>
      match e.nodes[k]? with
      | none => e
      | some node =>
          { nodes := e.nodes.set k (node.round component).1
            sent := e.sent ++ (node.round component).2 }
  | .submit k q =>
      match e.nodes[k]? with
      | none => e
      | some node => { e with nodes := e.nodes.set k (node.submit q).1 }
  | .deliver receiver index =>
      match e.nodes[receiver]?, e.sent[index]? with
      | some node, some m =>
          if isFor receiver m then { e with nodes := e.nodes.set receiver (receive m node) } else e
      | _, _ => e

/-- What an action makes of an assembly. -/
def act (e : Assembly) (action : Action) : Assembly :=
  e.actWith arrive action

/-- What a sequence of actions makes of the fresh processes of a cluster. -/
def run (c : Cluster) (actions : List Action) : Assembly :=
  actions.foldl act (start c)

/-- Everybody stands in its place and is portable, and so is what they have sent. -/
structure Sound (c : Cluster) (e : Assembly) : Prop where
  length : e.nodes.length = c.size
  site : ∀ (k : NodeId) (node : Node), e.nodes[k]? = some node → node.site = c.siteOf k
  portable : ∀ (k : NodeId) (node : Node), e.nodes[k]? = some node → node.Portable
  sent : ∀ m ∈ e.sent, m.sender < c.size ∧ m.payload.Regular c

variable {c : Cluster} {e : Assembly} {k : NodeId} {node : Node}

theorem sound_start (few : c.size ≤ maxSigned + 1) : (start c).Sound c := by
  have fresh : ∀ k node, (start c).nodes[k]? = some node →
      k < c.size ∧ node = .new (c.siteOf k) := by
    intro k node found
    simp only [start, Cluster.nodes, List.getElem?_map, Option.map_eq_some_iff] at found
    obtain ⟨j, listed, rfl⟩ := found
    obtain ⟨inRange, rfl⟩ := List.getElem?_eq_some_iff.mp listed
    simpa using inRange
  exact
    { length := by simp [start, Cluster.nodes]
      site := fun k node found => (fresh k node found).2 ▸ rfl
      portable := fun k node found => by
        obtain ⟨inRange, rfl⟩ := fresh k node found
        exact .new inRange few
      sent := fun _ listed => absurd listed List.not_mem_nil }

namespace Sound

theorem inRange (sound : e.Sound c) (found : e.nodes[k]? = some node) : k < c.size :=
  sound.length ▸ (List.getElem?_eq_some_iff.mp found).1

theorem put (sound : e.Sound c) (found : e.nodes[k]? = some node) {after : Node}
    {more : List Message} (site : after.site = node.site) (portable : after.Portable)
    (sent : ∀ m ∈ more, m.sender < c.size ∧ m.payload.Regular c) :
    ({ nodes := e.nodes.set k after, sent := e.sent ++ more } : Assembly).Sound c := by
  have of_set : ∀ j other, (e.nodes.set k after)[j]? = some other →
      j = k ∧ other = after ∨ e.nodes[j]? = some other := by
    intro j other placed
    rw [List.getElem?_set] at placed
    split at placed
    · next same =>
        split at placed
        · exact .inl ⟨same.symm, (Option.some.inj placed).symm⟩
        · contradiction
    · exact .inr placed
  refine ⟨List.length_set.trans sound.length, fun j other placed => ?_, fun j other placed => ?_,
    fun m listed => ?_⟩
  · rcases of_set j other placed with ⟨rfl, rfl⟩ | before
    · exact site.trans (sound.site j node found)
    · exact sound.site j other before
  · rcases of_set j other placed with ⟨rfl, rfl⟩ | before
    · exact portable
    · exact sound.portable j other before
  · exact (List.mem_append.mp listed).elim (sound.sent m) (sent m)

section Steps

variable (sound : e.Sound c) (few : c.size ≤ maxSigned + 1)
include sound few

/-- A message that was sent is read as it was meant. -/
theorem arrive_eq_hand (found : e.nodes[k]? = some node) {m : Message} (sent : m ∈ e.sent) :
    arrive m node = hand m node := by
  obtain ⟨sender, regular⟩ := sound.sent m sent
  have fits : m.Writable :=
    ⟨Nat.le_trans (Nat.le_of_lt sender) (Nat.le_trans few (by decide)), regular.writable⟩
  have known : ¬ (m.sender ≠ m.sender ∨ node.site.cluster.size ≤ m.sender) := by
    rw [sound.site k node found]
    exact fun either => either.elim (· rfl) (Nat.not_le.mpr sender)
  rw [arrive, Node.onMessage, Message.decode_encode fits]
  dsimp only
  rw [if_neg known]
  rfl

theorem act_eq (action : Action) : e.act action = e.actWith hand action := by
  unfold Assembly.act actWith
  cases action with
  | run k component => rfl
  | submit k q => rfl
  | deliver receiver index =>
      dsimp only
      split
      · next node m found listed =>
          rw [sound.arrive_eq_hand few found (List.mem_of_getElem? listed)]
      · rfl

theorem act {action : Action} (admissible : action.Admissible) : (e.act action).Sound c := by
  have unsent : ∀ m ∈ ([] : List Message), m.sender < c.size ∧ m.payload.Regular c :=
    fun _ listed => absurd listed List.not_mem_nil
  rw [sound.act_eq few]
  cases action with
  | run k component =>
      unfold actWith
      dsimp only
      split
      · exact sound
      · next node found =>
          have site := sound.site k node found
          have inRange := sound.inRange found
          obtain ⟨after, sent⟩ := (sound.portable k node found).round (by rwa [site])
            (by rwa [site]) (by rw [site]; rfl) component
          refine sound.put found (node.site_act (.run component)) after fun m listed => ?_
          obtain ⟨sender, regular⟩ := sent m listed
          rw [site] at sender regular
          exact ⟨sender ▸ inRange, regular⟩
  | submit k q =>
      unfold actWith
      dsimp only
      split
      · exact sound
      · next node found =>
          have site := sound.site k node found
          have after := (sound.portable k node found).submit
            (by rw [site]; exact sound.inRange found) admissible
          have placed := sound.put found (node.site_act (.submit q)) after unsent
          rwa [List.append_nil] at placed
  | deliver receiver index =>
      unfold actWith
      dsimp only
      split
      · next node m found listed =>
          split
          · have site := sound.site receiver node found
            have inRange := sound.inRange found
            have sent := List.mem_of_getElem? listed
            have regular : m.payload.Regular (node.count [.messageReceived]).site.cluster := by
              rw [Node.count, site]
              exact (sound.sent m sent).2
            have after := ((sound.portable receiver node found).count [.messageReceived]).dispatch
              (by rw [Node.count, site]; exact inRange) (by rw [Node.count, site]; exact few)
              (by rw [Node.count, site]; rfl) regular
            have stays := (node.count [.messageReceived]).site_act (.dispatch m)
            have placed := sound.put found stays after unsent
            rwa [List.append_nil] at placed
          · exact sound
      · exact sound

end Steps

end Sound

/-- Whatever happens in a cluster, all states can be written. -/
theorem sound_run (few : c.size ≤ maxSigned + 1) (actions : List Action)
    (admissible : ∀ action ∈ actions, action.Admissible) : (run c actions).Sound c :=
  List.foldlRecOn _ _ (sound_start few) fun _ sound action listed =>
    sound.act few (admissible action listed)

/-- It makes no difference that messages travel as texts. -/
theorem run_eq (few : c.size ≤ maxSigned + 1) (actions : List Action)
    (admissible : ∀ action ∈ actions, action.Admissible) :
    run c actions = actions.foldl (actWith hand) (start c) := by
  have same : ∀ e : Assembly, e.Sound c →
      actions.foldl Assembly.act e = actions.foldl (actWith hand) e := by
    induction actions with
    | nil =>
        intro e _
        rw [List.foldl_nil, List.foldl_nil]
    | cons action rest ih =>
        rw [List.forall_mem_cons] at admissible
        intro e sound
        have after := sound.act few admissible.1
        rw [List.foldl_cons, List.foldl_cons, ih admissible.2 _ after, sound.act_eq few action]
  unfold run
  exact same (start c) (sound_start few)

end Assembly

end QuorumList
