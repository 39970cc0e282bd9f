import QuorumList.Message
import QuorumList.Agreement.Round
import QuorumList.Establishment.Round

/-!
A process: its components, and the calls and messages between them.

The components of a process know nothing of each other.  The process answers the questions of the
one that runs, carries out the directives it gives, wraps what it sends into messages, and hands
received messages to the component they are for.  A component that is not installed answers no call
and ignores every message.

A received text is only handed on when it decodes and names as its sender the process on whose link
it came.
-/
namespace QuorumList

/-- A process with its installed components and its counters. -/
structure Node where
  site : Site
  establishment : Option Establishment
  agreement : Option Agreement
  monitoring : Option Monitoring
  detection : Option Detection
  metrics : Metrics
deriving Repr

namespace Node

/-- A fresh process with all components. -/
def new (site : Site) : Node :=
  { site := site
    establishment := some (.new site)
    agreement := some (.new site)
    monitoring := some (.new site)
    detection := some (.new site)
    metrics := .zero }

/-- The process without a component. -/
def without (node : Node) : Component → Node
  | .establishment => { node with establishment := none }
  | .agreement => { node with agreement := none }
  | .monitoring => { node with monitoring := none }
  | .detection => { node with detection := none }

/-- The component is installed. -/
def isInstalled (node : Node) : Component → Bool
  | .establishment => node.establishment.isSome
  | .agreement => node.agreement.isSome
  | .monitoring => node.monitoring.isSome
  | .detection => node.detection.isSome

/-- Count events. -/
def count (events : List Event) (node : Node) : Node :=
  { node with metrics := node.metrics.countAll events }

/-! ### Calls -/

/-- What a running component learns from the others.  No component asks for its own functions. -/
def answers (node : Node) : Answers :=
  { viewOf := fun k =>
      match node.establishment with
      | some e => e.currentView node.site k
      | none => .tee
    serviceAllowed :=
      match node.establishment with
      | some e => e.allowService node.site
      | none => false
    needFlush :=
      match node.agreement with
      | some a => a.needFlush
      | none => false
    noViewChange := node.monitoring.map fun m => m.noViewChange node.site
    suspected :=
      match node.detection with
      | some d => d.suspected node.site
      | none => false
    pending :=
      match node.agreement with
      | some a => (a.own node.site).pending
      | none => [] }

/-- Call a function of a component. -/
def execute (component : Component) (function : Function) (node : Node) :
    Except BadRoute (Reply × Node) :=
  if function.owner ≠ component then .error { component := component, function := function }
  else
    match component with
    | .establishment =>
        match node.establishment with
        | none => .ok (.unavailable, node)
        | some e => do
            let (reply, outcome) ← e.call node.site function
            pure (reply, { node with establishment := some outcome.state }.count outcome.events)
    | .agreement =>
        match node.agreement with
        | none => .ok (.unavailable, node)
        | some a => do
            let (reply, a) ← a.call node.site function
            pure (reply, { node with agreement := some a })
    | .monitoring =>
        match node.monitoring with
        | none => .ok (.unavailable, node)
        | some m => do
            let reply ← m.call node.site function
            pure (reply, node)
    | .detection =>
        match node.detection with
        | none => .ok (.unavailable, node)
        | some d => do
            let reply ← d.call node.site function
            pure (reply, node)

/-- Carry out a directive: call its function at the component that owns it. -/
def direct (node : Node) (d : Directive) : Node :=
  match node.execute d.function.owner d.function with
  | .ok (_, node) => node
  | .error _ => node

/-- Carry out directives and count events of a component that has run. -/
def settle (directives : List Directive) (events : List Event) (node : Node) : Node :=
  (directives.foldl direct node).count events

/-! ### Rounds -/

/-- Run a round of a component; the result holds the messages to send. -/
def round (component : Component) (node : Node) : Node × List Message :=
  let me := node.site.me
  match component with
  | .establishment =>
      match node.establishment with
      | none => (node, [])
      | some e =>
          let outcome := e.round node.site node.answers
          ( { node with establishment := some outcome.state }.settle
              outcome.directives outcome.events,
            (outcome.state.announcements node.site).map fun (receiver, a) =>
              .targeted me receiver (.establishment a) )
  | .agreement =>
      match node.agreement with
      | none => (node, [])
      | some a =>
          let outcome := a.round node.site node.answers
          ( { node with agreement := some outcome.state }.settle
              outcome.directives outcome.events,
            [.broadcast me (.agreement (outcome.state.own node.site))] )
  | .monitoring =>
      match node.monitoring with
      | none => (node, [])
      | some m =>
          let outcome := m.round node.site node.answers
          ( { node with monitoring := some outcome.state }.settle
              outcome.directives outcome.events,
            [.broadcast me (.monitoring (outcome.state.own node.site))] )
  | .detection =>
      match node.detection with
      | none => (node, [])
      | some d =>
          match d.broadcast node.site node.answers with
          | some m => (node, [.broadcast me (.detection m)])
          | none => (node, [.broadcast me .heartbeat])

/-! ### Messages -/

/-- Hand a message to its component.  A token first reaches the failure detector as such. -/
def dispatch (message : Message) (node : Node) : Node :=
  let site := node.site
  let sender := message.sender
  let node :=
    if message.kind.isToken then
      { node with
        detection := node.detection.map fun d => d.onToken site node.answers sender }
    else node
  match message.payload with
  | .establishment a =>
      { node with establishment := node.establishment.map fun e => e.receive site sender a }
  | .agreement r => { node with agreement := node.agreement.map fun s => s.receive site sender r }
  | .monitoring o =>
      { node with monitoring := node.monitoring.map fun m => m.receive site sender o }
  | .detection s => { node with detection := node.detection.map fun d => d.receive site sender s }
  | .heartbeat => node

/-- Why a received text is dropped. -/
inductive DeliveryError where
  | undecodable (reason : DecodeError)
  | senderMismatch (link claimed : NodeId)
deriving DecidableEq, Repr

/-- The text of the error. -/
def DeliveryError.message : DeliveryError → String
  | .undecodable reason => reason.message
  | .senderMismatch link claimed => s!"message from link {link} claims sender {claimed}"

/-- Receive a text on the link of a process. -/
def onMessage (link : NodeId) (text : Text) (node : Node) : Node × Except DeliveryError Unit :=
  match Message.decode text with
  | .error reason => (node.count [.decodeFailure], .error (.undecodable reason))
  | .ok message =>
      if message.sender ≠ link ∨ node.site.cluster.size ≤ link then
        (node.count [.decodeFailure], .error (.senderMismatch link message.sender))
      else ((node.count [.messageReceived]).dispatch message, .ok ())

/-! ### Requests and inspection -/

/-- Why a client request is not buffered: agreement refuses it, or is not installed. -/
inductive SubmitError where
  | refused (reason : Agreement.Refusal)
  | notInstalled (component : Component)
deriving DecidableEq, Repr

/-- The text of the error. -/
def SubmitError.message : SubmitError → String
  | .refused reason => reason.message
  | .notInstalled component => s!"module {component.key} is not installed"

/-- Buffer a client request. -/
def submit (q : ClientRequest) (node : Node) : Node × Except SubmitError Unit :=
  match node.agreement with
  | none => (node.count [.requestRefused], .error (.notInstalled .agreement))
  | some a =>
      match a.submit node.site q with
      | .ok a => ({ node with agreement := some a }, .ok ())
      | .error reason => (node.count [.requestRefused], .error (.refused reason))

/-- The primary of the current view, while there is one. -/
def currentView (node : Node) : Option NodeId :=
  (node.answers.viewOf node.site.me).node?

/-- The state of every installed component. -/
def data (node : Node) : Json :=
  let show? {α : Type} (component : Component) (f : α → Json) (state : Option α) :
      List (String × Json) :=
    (state.map fun a => (component.key, f a)).toList
  .object
    (show? .detection Detection.toJson node.detection ++
      show? .monitoring (fun m => (m.snapshot node.site).toJson) node.monitoring ++
      show? .agreement Agreement.toJson node.agreement ++
      show? .establishment (fun e => (e.snapshot node.site).toJson) node.establishment ++
      [("id", .nat node.site.me)])

end Node

end QuorumList
