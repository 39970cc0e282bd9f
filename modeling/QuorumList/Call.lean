import QuorumList.Request
import QuorumList.Metrics

/-!
Calls between the components of a process.

A process has four components.  Each owns a few functions that the others may call; a function that
is sent to another component is refused, and a component that is not installed leaves the call
unanswered.  A component that runs reads what it needs from `Answers`, in which every unanswered
call has its cautious default, and hands back `Directive`s: the calls that change another component.
No answer that a run reads depends on a directive it gives, so directives are carried out after the
run.
-/
namespace QuorumList

/-- The components of a process. -/
inductive Component where
  /-- View establishment: agrees on the primary. -/
  | establishment
  /-- Agreement: orders and executes requests. -/
  | agreement
  /-- Primary monitoring: decides when the primary has to go. -/
  | monitoring
  /-- Failure detection: turns silence and lack of progress into suspicion. -/
  | detection
deriving DecidableEq, Repr

namespace Component

/-- The components in the order in which a process runs them. -/
def all : List Component :=
  [.establishment, .agreement, .monitoring, .detection]

/-- The key of a component in snapshots and start states. -/
def key : Component → String
  | .establishment => "VIEW_ESTABLISHMENT_MODULE"
  | .agreement => "REPLICATION_MODULE"
  | .monitoring => "PRIMARY_MONITORING_MODULE"
  | .detection => "FAILURE_DETECTOR_MODULE"

end Component

/-- The functions that components offer to each other. -/
inductive Function where
  | currentView (node : NodeId)
  | allowService
  | viewChange
  | replicaFlush
  | pendingRequests
  | requestReset
  | needFlush
  | noViewChange
  | suspected
deriving DecidableEq, Repr

namespace Function

/-- The name of a function. -/
def name : Function → String
  | .currentView _ => "GET_CURRENT_VIEW"
  | .allowService => "ALLOW_SERVICE"
  | .viewChange => "VIEW_CHANGE"
  | .replicaFlush => "REPLICA_FLUSH"
  | .pendingRequests => "GET_PEND_REQS"
  | .requestReset => "REP_REQUEST_RESET"
  | .needFlush => "NEED_FLUSH"
  | .noViewChange => "NO_VIEW_CHANGE"
  | .suspected => "SUSPECTED"

/-- The function with a given name; `node` is the process whose view is asked for. -/
def ofName? (node : NodeId) : String → Option Function
  | "GET_CURRENT_VIEW" => some (.currentView node)
  | "ALLOW_SERVICE" => some .allowService
  | "VIEW_CHANGE" => some .viewChange
  | "REPLICA_FLUSH" => some .replicaFlush
  | "GET_PEND_REQS" => some .pendingRequests
  | "REP_REQUEST_RESET" => some .requestReset
  | "NEED_FLUSH" => some .needFlush
  | "NO_VIEW_CHANGE" => some .noViewChange
  | "SUSPECTED" => some .suspected
  | _ => none

theorem ofName?_name (f : Function) (node : NodeId) :
    ofName? node f.name = some (match f with
      | .currentView _ => .currentView node
      | f => f) := by
  cases f <;> rfl

/-- The component that owns a function. -/
def owner : Function → Component
  | .currentView _ | .allowService | .viewChange => .establishment
  | .replicaFlush | .pendingRequests | .requestReset | .needFlush => .agreement
  | .noViewChange => .monitoring
  | .suspected => .detection

end Function

/-- The reply to a call. -/
inductive Reply where
  | view (view : View)
  | flag (value : Bool)
  | requests (requests : List ClientRequest)
  | done
  /-- The component is not installed. -/
  | unavailable
deriving DecidableEq, Repr

namespace Reply

/-- A reply as a JSON value. -/
def toJson : Reply → Json
  | .view v => .object [("view", v.toJson)]
  | .flag b => .object [("flag", .bool b)]
  | .requests qs => .object [("requests", .list ClientRequest.toJson qs)]
  | .done => .string "done"
  | .unavailable => .string "unavailable"

end Reply

/-- A function was sent to a component that does not own it. -/
structure BadRoute where
  component : Component
  function : Function
deriving DecidableEq, Repr

namespace BadRoute

/-- The text of the error. -/
def message (e : BadRoute) : String :=
  s!"module {e.component.key} has no function {e.function.name}"

end BadRoute

/-- What a running component reads from the others. -/
structure Answers where
  /-- The view of each process; undefined when unknown. -/
  viewOf : NodeId → View
  /-- Service is allowed. -/
  serviceAllowed : Bool
  /-- Agreement wants view establishment to reset. -/
  needFlush : Bool
  /-- No view change is under way, if anybody knows. -/
  noViewChange : Option Bool
  /-- The primary is suspected. -/
  suspected : Bool
  /-- The pending requests of this process. -/
  pending : List ClientRequest

namespace Answers

/-- The cautious answers when no other component can be reached. -/
def unavailable : Answers :=
  { viewOf := fun _ => .tee
    serviceAllowed := false
    needFlush := false
    noViewChange := none
    suspected := false
    pending := [] }

end Answers

/-- A call by which a running component changes another one. -/
inductive Directive where
  /-- Primary monitoring asks view establishment for a view change. -/
  | viewChange
  /-- View establishment asks agreement to drop its record. -/
  | replicaFlush
  /-- View establishment takes note of the wish of agreement for a reset. -/
  | requestReset
deriving DecidableEq, Repr

namespace Directive

/-- The function that a directive calls. -/
def function : Directive → Function
  | .viewChange => .viewChange
  | .replicaFlush => .replicaFlush
  | .requestReset => .requestReset

end Directive

/-- What a run of a component leaves behind: its new state, the calls it makes and what it counts.
-/
structure Outcome (σ : Type) where
  state : σ
  directives : List Directive
  events : List Event

end QuorumList
