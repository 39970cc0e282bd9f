import QuorumList.Endpoint
import QuorumList.Settings.Load
import QuorumList.StartState

/-!
Putting a process together.

From settings, the hosts file and perhaps a start state come the components of a process in the
state they begin in, and links to all other processes.
-/
namespace QuorumList

/-- Why a process cannot be put together. -/
inductive AssemblyError where
  /-- The start state from a file does not fit. -/
  | startState (path : String) (reason : StartStateError)
  | missingHost (reason : MissingHost)
deriving DecidableEq, Repr

namespace AssemblyError

/-- The text of the error. -/
def message : AssemblyError → String
  | .startState path reason =>
      s!"configuration error: Malformed start state at {path}: {reason.message}"
  | .missingHost reason => reason.message

end AssemblyError

namespace Settings

/-- A fresh process, or the process in its state of a start state. -/
def startNode (s : Settings) (start : Option StartState) : Except AssemblyError Node :=
  let node := Node.new s.site
  match start with
  | none => .ok node
  | some start =>
      match start.apply node with
      | .ok node => .ok node
      | .error reason => .error (.startState (s.startState.getD "") reason)

/-- Put a process together: first its components, then its links. -/
def assemble (s : Settings) (hosts : Net.Hosts) (start : Option StartState) :
    Except AssemblyError Endpoint := do
  let node ← s.startNode start
  match Links.new s.id hosts s.cluster.size s.queueSize with
  | .ok links => pure (.new node hosts links)
  | .error reason => throw (.missingHost reason)

/-- The hosts file names every process of the cluster. -/
def validateHosts (s : Settings) (hosts : Net.Hosts) : Except InvalidSettings Unit :=
  match hosts.missing? s.size with
  | some node => .error (.hostMissing node)
  | none => .ok ()

end Settings

end QuorumList
