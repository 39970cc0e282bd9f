import QuorumList.Json.Tagged
import QuorumList.Json.Value

/-!
The datagrams of a link.

A data frame carries a payload under a token, and an acknowledgement names the token it answers.
Tokens tell frames apart and have no order: they count up and start again from zero.
-/
namespace QuorumList.Link

/-- A datagram. -/
inductive Frame where
  | data (token : Nat) (payload : String)
  | ack (token : Nat)
deriving DecidableEq, Repr

/-- There are so many tokens. -/
def tokenCount : Nat :=
  0x80000000

/-- The token that follows a token. -/
def nextToken (token : Nat) : Nat :=
  (token + 1) % tokenCount

namespace Frame

open Json (Decoder)

/-- The kinds of frames. -/
inductive Kind where
  | data
  | ack
deriving DecidableEq, Repr

/-- The kind with a given name. -/
def Kind.ofName? : String → Option Kind
  | "DATA" => some .data
  | "ACK" => some .ack
  | _ => none

/-- The parts of a frame, as far as they have been read. -/
structure Draft where
  token : Nat
  payload : String

/-- The token of a frame; it may be any number of 32 bits. -/
def tokenField : Json.Field Draft :=
  .make "token" .required (Decoder.naturalTo 0xffffffff) fun v d => { d with token := v }

/-- The payload of a data frame. -/
def payloadField : Json.Field Draft :=
  .make "payload" .required Decoder.string fun v d => { d with payload := v }

/-- The parts that a frame of a kind has besides its kind. -/
def partsDecoder : Kind → Decoder Frame
  | .data => fun s => do
      let d ← Decoder.record [tokenField, payloadField] { token := 0, payload := "" } s
      pure (.data d.token d.payload)
  | .ack => fun s => do
      let d ← Decoder.record [tokenField] { token := 0, payload := "" } s
      pure (.ack d.token)

/-- A frame from a JSON value. -/
def decoder : Decoder Frame :=
  .mixed "kind" (.refine Decoder.string Kind.ofName?) partsDecoder

/-- Read a datagram, if it is a frame. -/
def decode? (text : Text) : Option Frame :=
  (Json.Document.decode decoder (Json.Document.ofText text)).toOption

/-- A frame as a JSON value. -/
def toJson : Frame → Json
  | .data token payload =>
      .object
        [ ("kind", .string "DATA"),
          ("token", .nat token),
          ("payload", .string payload) ]
  | .ack token =>
      .object
        [ ("kind", .string "ACK"),
          ("token", .nat token) ]

/-- The text of a frame. -/
def encode (frame : Frame) : String :=
  frame.toJson.render

end Frame

end QuorumList.Link
