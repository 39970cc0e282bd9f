import QuorumList.Proofs.Restart
import QuorumList.Proofs.RoundTrip

/-!
Whose message changes what.

A process stores one slot for every process: the stance in which it last saw it, its echo, whether
it is a witness, its record and its opinion.  A text that arrives on the link of a process changes
at most the slot of that process.  So texts of different processes commute, and a repeated text
changes nothing more, unless it is a token, which ages the beats of all others.

The flags of the witnesses are stored as well, and computed anew at certain moments only.  At every
moment they are the ones that follow from the echoes and the own stance.
-/
namespace QuorumList

/-! ### One component -/

namespace Establishment

variable {site : Site} {s t : Establishment} {sender other k : NodeId} {a b : Announcement}

theorem receive_receive :
    (s.receive site sender a).receive site sender a = s.receive site sender a := by
  by_cases kept : (site.isPeer sender && a.valid site.cluster.size) = true
  · simp only [receive, if_pos kept, List.set_set]
  · simp only [receive, if_neg kept]

theorem receive_comm (different : sender ≠ other) :
    (s.receive site sender a).receive site other b =
      (s.receive site other b).receive site sender a := by
  by_cases kept : (site.isPeer sender && a.valid site.cluster.size) = true
  · by_cases keptOther : (site.isPeer other && b.valid site.cluster.size) = true
    · simp only [receive, if_pos kept, if_pos keptOther, List.set_comm _ _ different]
    · simp only [receive, if_pos kept, if_neg keptOther]
  · simp only [receive, if_neg kept]

theorem getElem?_receive_of_ne (site : Site) (s : Establishment) (a : Announcement)
    (different : k ≠ sender) :
    (s.receive site sender a).pairs[k]? = s.pairs[k]? ∧
      (s.receive site sender a).phases[k]? = s.phases[k]? ∧
      (s.receive site sender a).echoes[k]? = s.echoes[k]? := by
  unfold receive
  split
  · exact ⟨List.getElem?_set_ne different.symm, List.getElem?_set_ne different.symm,
      List.getElem?_set_ne different.symm⟩
  · exact ⟨rfl, rfl, rfl⟩

theorem witness_receive_of_ne (different : k ≠ sender) :
    (s.receive site sender a).witness site k = s.witness site k := by
  rw [witness, witness, own_receive, (stanceOf_receive_of_ne different a).2]

/-- What the witnesses follow from. -/
def tables (s : Establishment) : List ViewPair × List Phase × List (Option Stance) :=
  (s.pairs, s.phases, s.echoes)

theorem witness_congr (same : t.tables = s.tables) : t.witness site = s.witness site := by
  cases s
  cases t
  cases same
  rfl

theorem tables_call {function : Function} {reply : Reply} {outcome : Outcome Establishment}
    (called : s.call site function = .ok (reply, outcome)) : outcome.state.tables = s.tables := by
  cases function <;> cases called <;> rfl

end Establishment

namespace Agreement

variable {site : Site} {s : Agreement} {sender other k : NodeId} {r q : Record}

theorem receive_receive :
    (s.receive site sender r).receive site sender r = s.receive site sender r := by
  by_cases kept : site.isPeer sender = true
  · simp only [receive, if_pos kept, List.set_set]
  · simp only [receive, if_neg kept]

theorem receive_comm (different : sender ≠ other) :
    (s.receive site sender r).receive site other q =
      (s.receive site other q).receive site sender r := by
  by_cases kept : site.isPeer sender = true
  · by_cases keptOther : site.isPeer other = true
    · simp only [receive, if_pos kept, if_pos keptOther, List.set_comm _ _ different]
    · simp only [receive, if_pos kept, if_neg keptOther]
  · simp only [receive, if_neg kept]

theorem getElem?_receive_of_ne (site : Site) (s : Agreement) (r : Record)
    (different : k ≠ sender) :
    (s.receive site sender r).records[k]? = s.records[k]? := by
  unfold receive
  split
  · exact List.getElem?_set_ne different.symm
  · rfl

theorem marks_receive (site : Site) (s : Agreement) (sender : NodeId) (r : Record) :
    (s.receive site sender r).flush = s.flush ∧
      (s.receive site sender r).needFlush = s.needFlush := by
  unfold receive
  split <;> exact ⟨rfl, rfl⟩

end Agreement

namespace Monitoring

variable {site : Site} {s : Monitoring} {sender other k : NodeId} {o p : Opinion}

theorem receive_receive :
    (s.receive site sender o).receive site sender o = s.receive site sender o := by
  by_cases kept : site.isPeer sender = true
  · simp only [receive, if_pos kept, List.set_set]
  · simp only [receive, if_neg kept]

theorem receive_comm (different : sender ≠ other) :
    (s.receive site sender o).receive site other p =
      (s.receive site other p).receive site sender o := by
  by_cases kept : site.isPeer sender = true
  · by_cases keptOther : site.isPeer other = true
    · simp only [receive, if_pos kept, if_pos keptOther, List.set_comm _ _ different]
    · simp only [receive, if_pos kept, if_neg keptOther]
  · simp only [receive, if_neg kept]

theorem getElem?_receive_of_ne (site : Site) (s : Monitoring) (o : Opinion)
    (different : k ≠ sender) :
    (s.receive site sender o).opinions[k]? = s.opinions[k]? := by
  unfold receive
  split
  · exact List.getElem?_set_ne different.symm
  · rfl

end Monitoring

namespace Node

variable {node mid after : Node} {link other : NodeId} {text otherText : Text} {message : Message}

/-! ### Texts and messages -/

/-- The message that a process takes from a text on the link of a process. -/
def heard? (site : Site) (link : NodeId) (text : Text) : Option Message :=
  match Message.decode text with
  | .error _ => none
  | .ok message =>
      if message.sender ≠ link ∨ site.cluster.size ≤ link then none else some message

/-- The text is no token: what it says, if anything, is for one component only. -/
def Reports (text : Text) : Prop :=
  ∀ message, Message.decode text = .ok message → message.kind.isToken = false

/-- Hand on a message, if there is one. -/
def take (message? : Option Message) (node : Node) : Node :=
  match message? with
  | some message => node.dispatch message
  | none => node

theorem of_heard? {site : Site} (heard : heard? site link text = some message) :
    Message.decode text = .ok message ∧ message.sender = link := by
  unfold heard? at heard
  split at heard
  · cases heard
  · next decoded =>
      split at heard
      · cases heard
      · next own =>
          cases heard
          exact ⟨decoded, Classical.not_not.mp fun foreign => own (.inl foreign)⟩

theorem dispatch_count (events : List Event) (message : Message) :
    (node.count events).dispatch message = (node.dispatch message).count events := by
  simp only [dispatch]
  cases message.kind.isToken <;> cases message.payload <;> rfl

theorem take_count (events : List Event) (message? : Option Message) :
    (node.count events).take message? = (node.take message?).count events := by
  cases message? with
  | none => rfl
  | some message => exact dispatch_count events message

/-- A text is counted, whether it can be used or not; the rest happens only if it can. -/
theorem onMessage_eq (node : Node) (link : NodeId) (text : Text) :
    ∃ events, (node.onMessage link text).1 =
      (node.take (heard? node.site link text)).count events := by
  unfold onMessage heard?
  cases Message.decode text with
  | error reason => exact ⟨_, rfl⟩
  | ok message =>
      dsimp only
      split
      · exact ⟨_, rfl⟩
      · exact ⟨_, dispatch_count _ _⟩

theorem onMessage_onMessage_eq (node : Node) (link : NodeId) (text : Text) (other : NodeId)
    (otherText : Text) :
    ∃ events, ((node.onMessage link text).1.onMessage other otherText).1 =
      ((node.take (heard? node.site link text)).take
        (heard? node.site other otherText)).count events := by
  obtain ⟨events, first⟩ := node.onMessage_eq link text
  obtain ⟨events', second⟩ := (node.onMessage link text).1.onMessage_eq other otherText
  have site : (node.onMessage link text).1.site = node.site :=
    (Keeps.onMessage node link text).site
  rw [site] at second
  rw [second, first, take_count]
  exact ⟨events ++ events', by simp [count, Metrics.countAll]⟩

theorem heard?_eq_none_of_error {error : DeliveryError}
    (failed : (node.onMessage link text).2 = .error error) :
    heard? node.site link text = none := by
  unfold onMessage at failed
  unfold heard?
  cases decoded : Message.decode text with
  | error reason => rfl
  | ok message =>
      rw [decoded] at failed
      dsimp only at failed ⊢
      split at failed
      · next foreign => exact if_pos foreign
      · cases failed

/-! ### Texts that are no tokens -/

theorem dispatch_of_report {message : Message} (report : message.kind.isToken = false) :
    node.dispatch message =
      match message.payload with
      | .establishment a =>
          { node with
            establishment := node.establishment.map fun e =>
              e.receive node.site message.sender a }
      | .agreement r =>
          { node with
            agreement := node.agreement.map fun s => s.receive node.site message.sender r }
      | .monitoring o =>
          { node with
            monitoring := node.monitoring.map fun m => m.receive node.site message.sender o }
      | _ => node := by
  cases message with
  | mk sender receiver payload =>
      cases payload with
      | detection m => cases report
      | heartbeat => cases report
      | _ => rfl

theorem dispatch_dispatch (report : message.kind.isToken = false) :
    (node.dispatch message).dispatch message = node.dispatch message := by
  rw [dispatch_of_report report, dispatch_of_report report]
  cases message.payload with
  | establishment a =>
      simp only [Option.map_map, Function.comp_def, Establishment.receive_receive]
  | agreement r => simp only [Option.map_map, Function.comp_def, Agreement.receive_receive]
  | monitoring o => simp only [Option.map_map, Function.comp_def, Monitoring.receive_receive]
  | detection m => rfl
  | heartbeat => rfl

theorem dispatch_comm {first second : Message} (different : first.sender ≠ second.sender)
    (report : first.kind.isToken = false) (reportToo : second.kind.isToken = false) :
    (node.dispatch first).dispatch second = (node.dispatch second).dispatch first := by
  rw [dispatch_of_report report, dispatch_of_report reportToo, dispatch_of_report report,
    dispatch_of_report reportToo]
  cases first.payload <;> cases second.payload <;>
    simp only [Option.map_map, Function.comp_def, Establishment.receive_comm different,
      Agreement.receive_comm different, Monitoring.receive_comm different]

theorem take_take {message? : Option Message}
    (report : ∀ message, message? = some message → message.kind.isToken = false) :
    (node.take message?).take message? = node.take message? := by
  cases message? with
  | none => rfl
  | some message => exact dispatch_dispatch (report message rfl)

theorem take_comm {first second : Option Message}
    (different : ∀ a b, first = some a → second = some b → a.sender ≠ b.sender)
    (report : ∀ a, first = some a → a.kind.isToken = false)
    (reportToo : ∀ b, second = some b → b.kind.isToken = false) :
    (node.take first).take second = (node.take second).take first := by
  cases first with
  | none => rfl
  | some a =>
      cases second with
      | none => rfl
      | some b => exact dispatch_comm (different a b rfl rfl) (report a rfl) (reportToo b rfl)

/-! ### Flags that are stored -/

/-- The flags of the witnesses, as they follow from what was heard. -/
def flags (node : Node) : List Bool :=
  match node.establishment with
  | some e => node.site.cluster.nodes.map (e.witness node.site)
  | none => []

/-- Something that happens at a process, or a call from outside. -/
inductive Occurrence where
  | act (action : Action)
  | call (component : Component) (function : Function)

/-- What an occurrence makes of a process. -/
def occur (node : Node) : Occurrence → Node
  | .act action => node.act action
  | .call component function =>
      match node.execute component function with
      | .ok (_, node) => node
      | .error _ => node

/-- The message carries an announcement that establishment keeps. -/
def keepsAnnouncement (site : Site) (message : Message) : Bool :=
  match message.payload with
  | .establishment a => site.isPeer message.sender && a.valid site.cluster.size
  | _ => false

/-- In this occurrence the flags are computed anew: at the end of a round of establishment and when
an announcement has been kept. -/
def refreshes (site : Site) : Occurrence → Bool
  | .act (.run component) => component = .establishment
  | .act (.dispatch message) => keepsAnnouncement site message
  | .act (.hear link text) => (heard? site link text).any (keepsAnnouncement site)
  | .act (.submit _) => false
  | .call .. => false

theorem of_bind_eq_ok {ε α β : Type} {x : Except ε α} {f : α → Except ε β} {b : β}
    (done : x >>= f = .ok b) : ∃ a, x = .ok a ∧ f a = .ok b := by
  cases x with
  | error reason => cases done
  | ok a => exact ⟨a, rfl, done⟩

/-- The tables that witnesses follow from are the same. -/
structure KeepsTables (node after : Node) : Prop where
  site : after.site = node.site
  tables : after.establishment.map Establishment.tables =
    node.establishment.map Establishment.tables

namespace KeepsTables

theorem of_eq (site : after.site = node.site)
    (establishment : after.establishment = node.establishment) : node.KeepsTables after :=
  ⟨site, by rw [establishment]⟩

theorem refl (node : Node) : node.KeepsTables node :=
  of_eq rfl rfl

theorem trans (first : node.KeepsTables mid) (second : mid.KeepsTables after) :
    node.KeepsTables after :=
  ⟨second.site.trans first.site, second.tables.trans first.tables⟩

theorem flags (kept : node.KeepsTables after) : after.flags = node.flags := by
  have same := kept.tables
  unfold Node.flags
  rw [kept.site]
  cases installed : node.establishment with
  | none =>
      rw [installed] at same
      rw [Option.map_eq_none_iff.mp same]
  | some e =>
      rw [installed] at same
      obtain ⟨e', installed', tables⟩ := Option.map_eq_some_iff.mp same
      rw [installed']
      dsimp only
      rw [Establishment.witness_congr tables]

/-- A call may ask for a view change at most. -/
theorem execute {component : Component} {function : Function} {reply : Reply}
    (executed : node.execute component function = .ok (reply, after)) :
    node.KeepsTables after := by
  unfold Node.execute at executed
  split at executed
  · cases executed
  · cases component with
    | establishment =>
        dsimp only at executed
        split at executed
        · cases executed
          exact refl node
        · next e installed =>
            obtain ⟨_, called, answered⟩ := of_bind_eq_ok executed
            cases answered
            refine ⟨rfl, ?_⟩
            rw [installed]
            exact congrArg some (Establishment.tables_call called)
    | agreement =>
        dsimp only at executed
        split at executed
        · cases executed
          exact refl node
        · obtain ⟨_, -, answered⟩ := of_bind_eq_ok executed
          cases answered
          exact of_eq rfl rfl
    | monitoring =>
        dsimp only at executed
        split at executed
        · cases executed
          exact refl node
        · obtain ⟨_, -, answered⟩ := of_bind_eq_ok executed
          cases answered
          exact refl node
    | detection =>
        dsimp only at executed
        split at executed
        · cases executed
          exact refl node
        · obtain ⟨_, -, answered⟩ := of_bind_eq_ok executed
          cases answered
          exact refl node

theorem settle (node : Node) (directives : List Directive) (events : List Event) :
    node.KeepsTables (node.settle directives events) := by
  have directed : node.KeepsTables (directives.foldl Node.direct node) := by
    apply List.foldlRecOn (motive := node.KeepsTables) _ _ (refl node)
    intro mid kept d _
    apply kept.trans
    unfold Node.direct
    split
    · next executed => exact execute executed
    · exact refl mid
  exact directed.trans (of_eq rfl rfl)

theorem round {component : Component} (other : component ≠ .establishment) (node : Node) :
    node.KeepsTables (node.round component).1 := by
  cases component with
  | establishment => contradiction
  | agreement =>
      simp only [Node.round]
      split
      · exact refl node
      · next a installed =>
          exact (of_eq rfl rfl : node.KeepsTables
            { node with agreement := some (a.round node.site node.answers).state }).trans
              (settle _ _ _)
  | monitoring =>
      simp only [Node.round]
      split
      · exact refl node
      · next m installed =>
          exact (of_eq rfl rfl : node.KeepsTables
            { node with monitoring := some (m.round node.site node.answers).state }).trans
              (settle _ _ _)
  | detection =>
      simp only [Node.round]
      split
      · exact refl node
      · split <;> exact refl node

theorem dispatch (ignored : keepsAnnouncement node.site message = false) :
    node.KeepsTables (node.dispatch message) := by
  unfold Node.dispatch
  dsimp only
  generalize told : (if message.kind.isToken = true then _ else node) = after
  have kept : node.KeepsTables after := by
    rw [← told]
    split
    · exact of_eq rfl rfl
    · exact refl node
  apply kept.trans
  cases content : message.payload with
  | establishment a =>
      rw [keepsAnnouncement, content] at ignored
      have unchanged (e : Establishment) : e.receive node.site message.sender a = e := by
        rw [Establishment.receive, if_neg (by simp [ignored])]
      exact of_eq rfl (by simp [unchanged])
  | agreement r => exact of_eq rfl rfl
  | monitoring o => exact of_eq rfl rfl
  | detection m => exact of_eq rfl rfl
  | heartbeat => exact refl after

theorem take {message? : Option Message}
    (ignored : message?.any (keepsAnnouncement node.site) = false) :
    node.KeepsTables (node.take message?) := by
  cases message? with
  | none => exact refl node
  | some message => exact dispatch ignored

theorem occur {occurrence : Occurrence} (quiet : refreshes node.site occurrence = false) :
    node.KeepsTables (node.occur occurrence) := by
  cases occurrence with
  | act action =>
      cases action with
      | run component => exact round (of_decide_eq_false quiet) node
      | submit q =>
          simp only [Node.occur, Node.act, Node.submit]
          split
          · exact of_eq rfl rfl
          · split <;> exact of_eq rfl rfl
      | hear link text =>
          obtain ⟨events, absorbed⟩ := node.onMessage_eq link text
          simp only [Node.occur, Node.act, absorbed]
          exact (take quiet).trans (of_eq rfl rfl)
      | dispatch message => exact dispatch quiet
  | call component function =>
      unfold Node.occur
      dsimp only
      split
      · next executed => exact execute executed
      · exact refl node

end KeepsTables

/-! ### Slots -/

/-- What a process stores about one process, as far as its components are installed. -/
structure Slot where
  pair : Option ViewPair
  phase : Option Phase
  echo : Option (Option Stance)
  witness : Option Bool
  record : Option Record
  opinion : Option Opinion
deriving DecidableEq

/-- The slot of a process, with given flags of witnesses. -/
def slot (node : Node) (flags : List Bool) (k : NodeId) : Slot :=
  { pair := node.establishment.bind fun e => e.pairs[k]?
    phase := node.establishment.bind fun e => e.phases[k]?
    echo := node.establishment.bind fun e => e.echoes[k]?
    witness := flags[k]?
    record := node.agreement.bind fun a => a.records[k]?
    opinion := node.monitoring.bind fun m => m.opinions[k]? }

/-- What establishment and agreement store about no process in particular: the wish for a view
change, and the marks to flush. -/
def marks (node : Node) : Option Bool × Option (Bool × Bool) :=
  (node.establishment.map fun e => e.changeWanted,
    node.agreement.map fun a => (a.flush, a.needFlush))

/-- The states of the components, with the flags of the witnesses. -/
structure States where
  establishment : Option Establishment
  agreement : Option Agreement
  monitoring : Option Monitoring
  detection : Option Detection
  flags : List Bool
deriving DecidableEq

/-- The states of a process, with given flags of witnesses. -/
def states (node : Node) (flags : List Bool) : States :=
  { establishment := node.establishment
    agreement := node.agreement
    monitoring := node.monitoring
    detection := node.detection
    flags := flags }

theorem getElem?_flags {e : Establishment} (installed : node.establishment = some e) (k : NodeId) :
    node.flags[k]? = if k < node.site.cluster.size then some (e.witness node.site k) else none := by
  rw [flags, installed, List.getElem?_map, Cluster.nodes]
  by_cases member : k < node.site.cluster.size
  · rw [List.getElem?_range member, if_pos member]
    rfl
  · rw [List.getElem?_eq_none (by rw [List.length_range]; exact Nat.not_lt.mp member),
      if_neg member]
    rfl

/-- A message changes no slot but that of its sender. -/
theorem slot_dispatch_of_ne {k : NodeId} (different : k ≠ message.sender) :
    (node.dispatch message).slot (node.dispatch message).flags k = node.slot node.flags k := by
  obtain ⟨sender, receiver, payload⟩ := message
  obtain ⟨site, establishment, agreement, monitoring, detection, metrics⟩ := node
  cases payload with
  | establishment a =>
      cases establishment with
      | none => rfl
      | some e =>
          obtain ⟨pair, phase, echo⟩ := Establishment.getElem?_receive_of_ne site e a different
          have witness : (Node.flags
                ⟨site, some (e.receive site sender a), agreement, monitoring, detection,
                  metrics⟩)[k]? =
              (Node.flags ⟨site, some e, agreement, monitoring, detection, metrics⟩)[k]? := by
            rw [getElem?_flags rfl, getElem?_flags rfl,
              Establishment.witness_receive_of_ne different]
          exact Slot.mk.injEq .. |>.mpr ⟨pair, phase, echo, witness, rfl, rfl⟩
  | agreement r =>
      cases agreement with
      | none => rfl
      | some s =>
          have record := Agreement.getElem?_receive_of_ne site s r different
          exact Slot.mk.injEq .. |>.mpr ⟨rfl, rfl, rfl, rfl, record, rfl⟩
  | monitoring o =>
      cases monitoring with
      | none => rfl
      | some s =>
          have opinion := Monitoring.getElem?_receive_of_ne site s o different
          exact Slot.mk.injEq .. |>.mpr ⟨rfl, rfl, rfl, rfl, rfl, opinion⟩
  | detection m => rfl
  | heartbeat => rfl

theorem marks_dispatch : (node.dispatch message).marks = node.marks := by
  obtain ⟨sender, receiver, payload⟩ := message
  obtain ⟨site, establishment, agreement, monitoring, detection, metrics⟩ := node
  cases payload with
  | establishment a =>
      cases establishment with
      | none => rfl
      | some e =>
          exact congrArg (fun wanted => (some wanted, _)) (Establishment.changeWanted_receive ..)
  | agreement r =>
      cases agreement with
      | none => rfl
      | some s =>
          obtain ⟨flush, needFlush⟩ := Agreement.marks_receive site s sender r
          exact congrArg (fun marks => (_, some marks)) (Prod.ext flush needFlush)
  | _ => rfl

theorem slot_take_of_ne {message? : Option Message} {k : NodeId}
    (different : ∀ message, message? = some message → k ≠ message.sender) :
    (node.take message?).slot (node.take message?).flags k = node.slot node.flags k := by
  cases message? with
  | none => rfl
  | some message => exact slot_dispatch_of_ne (different message rfl)

theorem marks_take {message? : Option Message} : (node.take message?).marks = node.marks := by
  cases message? with
  | none => rfl
  | some message => exact marks_dispatch

/-! ### A process with its flags -/

/-- A process together with the flags of the witnesses that it stores. -/
structure Flagged where
  node : Node
  flags : List Bool

namespace Flagged

/-- A fresh process, which has computed its flags. -/
def new (site : Site) : Flagged :=
  { node := .new site, flags := (Node.new site).flags }

/-- What an occurrence makes of a process and its flags. -/
def occur (s : Flagged) (occurrence : Occurrence) : Flagged :=
  let node := s.node.occur occurrence
  { node := node, flags := if refreshes s.node.site occurrence then node.flags else s.flags }

/-- What a sequence of occurrences makes of a process and its flags. -/
def runs (s : Flagged) (occurrences : List Occurrence) : Flagged :=
  occurrences.foldl occur s

/-- A text arrives on the link of a process. -/
def hear (link : NodeId) (text : Text) (s : Flagged) : Flagged :=
  s.occur (.act (.hear link text))

/-- The flags that are stored are those that follow from what was heard. -/
def Exact (s : Flagged) : Prop :=
  s.flags = s.node.flags

theorem Exact.occur {s : Flagged} (exactly : s.Exact) (occurrence : Occurrence) :
    (s.occur occurrence).Exact := by
  unfold Flagged.occur Exact
  dsimp only
  split
  · rfl
  · -- Nothing that the flags follow from has changed.
    next quiet =>
      rw [(KeepsTables.occur (Bool.eq_false_iff.mpr quiet)).flags]
      exact exactly

theorem exact_runs (site : Site) (occurrences : List Occurrence) :
    ((new site).runs occurrences).Exact :=
  List.foldlRecOn _ _ rfl fun _ exactly occurrence _ => exactly.occur occurrence

/-- What is stored about a process. -/
def slot (s : Flagged) (k : NodeId) : Slot :=
  s.node.slot s.flags k

/-- What is stored about no process in particular. -/
def marks (s : Flagged) : Option Bool × Option (Bool × Bool) :=
  s.node.marks

/-- The states of the components, with the flags that are stored. -/
def states (s : Flagged) : States :=
  s.node.states s.flags

variable {s : Flagged}

theorem Exact.hear (exactly : s.Exact) (link : NodeId) (text : Text) : (s.hear link text).Exact :=
  exactly.occur _

theorem Exact.slot_eq (exactly : s.Exact) (k : NodeId) :
    s.slot k = s.node.slot s.node.flags k := by
  rw [slot, show s.flags = s.node.flags from exactly]

theorem Exact.states_eq (exactly : s.Exact) : s.states = s.node.states s.node.flags := by
  rw [states, show s.flags = s.node.flags from exactly]

/-- The process makes of a text what it makes of the message in it, and counts it. -/
theorem node_hear (s : Flagged) (link : NodeId) (text : Text) :
    ∃ events, (s.hear link text).node =
      (s.node.take (heard? s.node.site link text)).count events :=
  s.node.onMessage_eq link text

theorem slot_hear_of_ne (exactly : s.Exact) {k : NodeId} (different : k ≠ link) :
    (s.hear link text).slot k = s.slot k := by
  obtain ⟨events, made⟩ := s.node_hear link text
  rw [(exactly.hear link text).slot_eq, exactly.slot_eq, made]
  apply slot_take_of_ne
  intro message heard
  rw [(of_heard? heard).2]
  exact different

theorem marks_hear : (s.hear link text).marks = s.marks := by
  obtain ⟨events, made⟩ := s.node_hear link text
  rw [marks, made]
  exact marks_take

theorem states_hear (exactly : s.Exact) :
    (s.hear link text).states =
      let after := s.node.take (heard? s.node.site link text)
      after.states after.flags := by
  obtain ⟨events, made⟩ := s.node_hear link text
  rw [(exactly.hear link text).states_eq, made]
  rfl

theorem states_hear_of_error (exactly : s.Exact) {error : DeliveryError}
    (failed : (s.node.onMessage link text).2 = .error error) :
    (s.hear link text).states = s.states := by
  rw [states_hear exactly, exactly.states_eq, heard?_eq_none_of_error failed]
  rfl

theorem states_hear_hear (exactly : s.Exact) :
    ((s.hear link text).hear other otherText).states =
      let after := (s.node.take (heard? s.node.site link text)).take
        (heard? s.node.site other otherText)
      after.states after.flags := by
  obtain ⟨events, absorbed⟩ := s.node.onMessage_onMessage_eq link text other otherText
  have made : ((s.hear link text).hear other otherText).node =
      ((s.node.take (heard? s.node.site link text)).take
        (heard? s.node.site other otherText)).count events := absorbed
  rw [((exactly.hear link text).hear other otherText).states_eq, made]
  rfl

end Flagged

/-- The links of a process do not touch each other's slots.  Whatever happened since it started, its
flags follow from what it heard, and a text changes no slot but that of the process on whose link it
arrives; what cannot be used changes nothing.  A text that is no token changes nothing more when it
is repeated, and two such texts of different links may come in either order. -/
theorem links_apart (site : Site) (occurrences : List Occurrence) :
    let s := (Flagged.new site).runs occurrences
    s.flags = s.node.flags ∧
      (∀ link text,
        (∀ k, k ≠ link → (s.hear link text).slot k = s.slot k) ∧
        (s.hear link text).marks = s.marks ∧
        ∀ error, (s.node.onMessage link text).2 = .error error →
          (s.hear link text).states = s.states) ∧
      (∀ link text, Reports text →
        ((s.hear link text).hear link text).states = (s.hear link text).states) ∧
      ∀ link text other otherText, link ≠ other → Reports text → Reports otherText →
        ((s.hear link text).hear other otherText).states =
          ((s.hear other otherText).hear link text).states := by
  intro s
  have exactly : s.Exact := Flagged.exact_runs site occurrences
  have report {text : Text} (reports : Reports text) (link : NodeId) (message : Message)
      (heard : heard? s.node.site link text = some message) : message.kind.isToken = false :=
    reports message (of_heard? heard).1
  refine ⟨exactly, fun link text => ⟨fun k different => ?_, ?_, fun error failed => ?_⟩,
    fun link text reports => ?_, fun link text other otherText different reports reportsToo => ?_⟩
  · exact Flagged.slot_hear_of_ne exactly different
  · exact Flagged.marks_hear
  · exact Flagged.states_hear_of_error exactly failed
  · rw [Flagged.states_hear_hear exactly, Flagged.states_hear exactly,
      take_take (report reports link)]
  · rw [Flagged.states_hear_hear exactly, Flagged.states_hear_hear exactly]
    rw [take_comm ?_ (report reports link) (report reportsToo other)]
    intro a b heard heardToo
    rw [(of_heard? heard).2, (of_heard? heardToo).2]
    exact different

/-- The message of a process that is on its way from view 0 to view 1. -/
def moving (k : NodeId) : Message :=
  .broadcast k (.establishment
    { stance := { phase := .change, pair := { current := .id 0, next := .id 1 } }
      echo := .initial })

def movingText (k : NodeId) : Text :=
  .ofString (moving k).encode

theorem decode_movingText (fits : link ≤ Json.maxUnsigned) :
    Message.decode (movingText link) = .ok (moving link) := by
  have next : (View.id 1).Writable := by
    rw [View.Writable]
    decide
  exact Message.decode_encode ⟨fits, ⟨⟨Nat.zero_le _, next⟩, ⟨Nat.zero_le _, Nat.zero_le _⟩⟩⟩

theorem reports_movingText (fits : link ≤ Json.maxUnsigned) : Reports (movingText link) := by
  intro message decoded
  rw [decode_movingText fits] at decoded
  cases decoded
  rfl

/-- Processes 1 and 2 move on in either order, and the text of process 1 is of no use on the link of
process 2. -/
theorem moving_texts_apart :
    let s := (Flagged.new firstOfSix.site).runs [.call .establishment .viewChange]
    Reports (movingText 1) ∧ Reports (movingText 2) ∧
      (s.hear 1 (movingText 1)).slot 2 = s.slot 2 ∧
      (s.hear 2 (movingText 1)).states = s.states ∧
      ((s.hear 1 (movingText 1)).hear 1 (movingText 1)).states =
        (s.hear 1 (movingText 1)).states ∧
      ((s.hear 1 (movingText 1)).hear 2 (movingText 2)).states =
        ((s.hear 2 (movingText 2)).hear 1 (movingText 1)).states := by
  intro s
  have first : Reports (movingText 1) := reports_movingText (by decide)
  have second : Reports (movingText 2) := reports_movingText (by decide)
  have failed : (s.node.onMessage 2 (movingText 1)).2 = .error (.senderMismatch 2 1) := by
    rw [onMessage, decode_movingText (by decide)]
    rfl
  obtain ⟨-, apart, repeated, swapped⟩ :=
    links_apart firstOfSix.site [.call .establishment .viewChange]
  refine ⟨first, second, (apart 1 (movingText 1)).1 2 (by decide),
    (apart 2 (movingText 1)).2.2 _ failed, repeated 1 _ first, ?_⟩
  exact swapped 1 _ 2 _ (by decide) first second

end Node

end QuorumList
