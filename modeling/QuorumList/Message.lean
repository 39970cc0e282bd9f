import QuorumList.Record.Wire
import QuorumList.Establishment.Announcement
import QuorumList.Monitoring
import QuorumList.Detection

/-!
Messages between processes, and their text.

Each component sends one kind of message; the failure detector also sends bare signs of life.  The
text of a message is an envelope with the code of its kind, the sender and the data of the
component. The receiver of a message is not part of its text.

An envelope is read first, its data as a generic value; only then the code decides how the data is
to be understood.  So a message can be malformed as an envelope or as a message of its kind.
-/
namespace QuorumList

/-- The kinds of messages. -/
inductive MessageKind where
  | establishment
  | agreement
  | monitoring
  | detection
  /-- A sign of life without any content. -/
  | heartbeat
deriving DecidableEq, Repr

namespace MessageKind

/-- The code of a kind in an envelope. -/
def code : MessageKind → Nat
  | .establishment => 1
  | .agreement => 2
  | .monitoring => 3
  | .detection => 4
  | .heartbeat => 5

/-- The kind with a code. -/
def ofCode? (code : Int) : Option MessageKind :=
  [establishment, agreement, monitoring, detection, heartbeat].find? fun k => k.code = code

/-- The name of a kind. -/
def name : MessageKind → String
  | .establishment => "VIEW_ESTABLISHMENT"
  | .agreement => "REPLICATION"
  | .monitoring => "PRIMARY_MONITORING"
  | .detection => "FAILURE_DETECTOR"
  | .heartbeat => "EVENT_DRIVEN_FD"

/-- Messages of the failure detector are tokens of their sender. -/
def isToken : MessageKind → Bool
  | .detection | .heartbeat => true
  | _ => false

end MessageKind

/-- The content of a message. -/
inductive Payload where
  | establishment (a : Announcement)
  | agreement (r : Record)
  | monitoring (o : Opinion)
  | detection (m : Suspicion)
  | heartbeat
deriving DecidableEq, Repr

namespace Payload

/-- The kind of a content. -/
def kind : Payload → MessageKind
  | .establishment _ => .establishment
  | .agreement _ => .agreement
  | .monitoring _ => .monitoring
  | .detection _ => .detection
  | .heartbeat => .heartbeat

/-- A content as a JSON value. -/
def toJson : Payload → Json
  | .establishment a => a.toJson
  | .agreement r => r.toJson
  | .monitoring o => o.toJson
  | .detection m => m.toJson
  | .heartbeat => .null

/-- A content of a given kind from a JSON value.  A sign of life ignores its data. -/
def decoder : MessageKind → Json.Decoder Payload
  | .establishment => fun s => .establishment <$> Announcement.decoder s
  | .agreement => fun s => .agreement <$> Record.decoder s
  | .monitoring => fun s => .monitoring <$> Opinion.decoder s
  | .detection => fun s => .detection <$> Suspicion.decoder s
  | .heartbeat => fun _ => .ok .heartbeat

end Payload

/-- A message, for one receiver or for all other processes. -/
structure Message where
  sender : NodeId
  receiver : Option NodeId
  payload : Payload
deriving DecidableEq, Repr

/-- Why a text is no message: it is malformed, as an envelope or as a message of a kind, or it has
an unknown code. -/
inductive DecodeError where
  | malformedEnvelope
  | malformedPayload (kind : MessageKind)
  | unknownCode (code : Int)
deriving DecidableEq, Repr

namespace DecodeError

/-- What is malformed, if anything is: the envelope, or a content of some kind. -/
def malformedPart? : DecodeError → Option String
  | .malformedEnvelope => some "ENVELOPE"
  | .malformedPayload kind => some kind.name
  | .unknownCode _ => none

/-- The text of the error. -/
def message (e : DecodeError) : String :=
  match e with
  | .malformedEnvelope => "malformed message: ENVELOPE"
  | .malformedPayload kind => s!"malformed message: {kind.name}"
  | .unknownCode code => s!"unknown message type {code}"

end DecodeError

namespace Message

/-- A message to one process. -/
def targeted (sender receiver : NodeId) (payload : Payload) : Message :=
  { sender := sender, receiver := some receiver, payload := payload }

/-- A message to all other processes. -/
def broadcast (sender : NodeId) (payload : Payload) : Message :=
  { sender := sender, receiver := none, payload := payload }

/-- The kind of a message. -/
def kind (m : Message) : MessageKind :=
  m.payload.kind

/-- The envelope of a message as a JSON value. -/
def envelope (m : Message) : Json :=
  .object
    [ ("type", .nat m.kind.code),
      ("sender", .nat m.sender),
      ("data", m.payload.toJson) ]

/-- A message with its receiver as a JSON value. -/
def toJson (m : Message) : Json :=
  .object
    [ ("data", m.payload.toJson),
      ("sender", .nat m.sender),
      ("to", .optional .nat m.receiver),
      ("type", .nat m.kind.code) ]

/-- The text of a message. -/
def encode (m : Message) : String :=
  m.envelope.render

/-- An envelope as read: the code, the sender, and the data as a generic value. -/
structure Envelope where
  code : Int
  sender : NodeId
  data : Json.Source

/-- An envelope from a JSON value. -/
def Envelope.decoder : Json.Decoder Envelope :=
  .record
    [ .make "type" .required .signed fun c e => { e with code := c },
      .make "sender" .required .unsigned fun s e => { e with sender := s },
      .make "data" .optional .generic fun d e => { e with data := d } ]
    { code := 0, sender := 0, data := .null }

/-- Read a text as a message to nobody in particular. -/
def decode (text : Text) : Except DecodeError Message :=
  match (Json.Document.ofText text).decode Envelope.decoder with
  | .error _ => .error .malformedEnvelope
  | .ok envelope =>
      match MessageKind.ofCode? envelope.code with
      | none => .error (.unknownCode envelope.code)
      | some kind =>
          match Payload.decoder kind envelope.data with
          | .error _ => .error (.malformedPayload kind)
          | .ok payload => .ok (broadcast envelope.sender payload)

end Message

end QuorumList
