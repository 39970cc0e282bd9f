import QuorumList.Settings.Wire
import QuorumList.StartState

/-!
The formats of a cluster's data.

Every kind of value that travels between processes or is kept in a file has a JSON form and a name.
Reading a text in a format and writing the value again gives the canonical text of the value: all
fields are there, in alphabetical order, and sets are in order.
-/
namespace QuorumList

/-- A kind of value with a JSON form. -/
structure Format where
  name : String
  /-- Read a text and write its value again. -/
  canonical? : Text → Option Json

namespace Format

/-- A format from its decoder and its writer. -/
def make {α : Type} (name : String) (decoder : Json.Decoder α) (toJson : α → Json) : Format :=
  { name := name
    canonical? := fun text => ((Json.Document.ofText text).decode decoder).toOption.map toJson }

/-- The formats of views, requests and switches. -/
def basic : List Format :=
  [ .make "View" View.decoder View.toJson,
    .make "Phase" Phase.decoder Phase.toJson,
    .make "ViewPair" ViewPair.decoder ViewPair.toJson,
    .make "NodeId" .unsigned .nat,
    .make "ClientId" .unsigned .nat,
    .make "Operation" Operation.decoder Operation.toJson,
    .make "ClientRequest" ClientRequest.decoder ClientRequest.toJson,
    .make "AssignedRequest" AssignedRequest.decoder AssignedRequest.toJson,
    .make "RequestStatus" Status.decoder Status.toJson,
    .make "StatusSet" StatusSet.decoder StatusSet.toJson,
    .make "ByzantineBehavior" Misbehaviour.decoder Misbehaviour.toJson ]

/-- The formats of what processes send and hold. -/
def states : List Format :=
  [ .make "LogEntry" LogEntry.decoder LogEntry.toJson,
    .make "RequestEntry" QueueEntry.decoder QueueEntry.toJson,
    .make "LastReq" LastReply.decoder LastReply.toJson,
    .make "ReplicaRecord" Record.decoder Record.toJson,
    .make "ReplicationState" Agreement.decoder Agreement.toJson,
    .make "Echo" Stance.decoder Stance.toJson,
    .make "VeMessage" Announcement.decoder Announcement.toJson,
    .make "VeState" Establishment.Snapshot.decoder Establishment.Snapshot.toJson,
    .make "VStatus" Service.decoder Service.toJson,
    .make "Vcm" Opinion.decoder Opinion.toJson,
    .make "PmState" Monitoring.Snapshot.decoder Monitoring.Snapshot.toJson,
    .make "FdMessage" Suspicion.decoder Suspicion.toJson,
    .make "FdState" Detection.Snapshot.decoder Detection.Snapshot.toJson ]

/-- The formats of files. -/
def files : List Format :=
  [ .make "NodeStartState" StartEntry.decoder StartEntry.toJson,
    .make "StartState" StartState.decoder StartState.toJson,
    .make "NodeConfig" Settings.decoder Settings.toJson ]

/-- The format with a given name. -/
def find? (name : String) : Option Format :=
  (basic ++ states ++ files).find? fun f => f.name = name

end Format

end QuorumList
