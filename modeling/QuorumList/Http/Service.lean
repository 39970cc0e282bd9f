import QuorumList.Http.MediaType
import QuorumList.Http.Target
import QuorumList.Node.Basic

/-!
The HTTP service of a process.

`GET /` says that the process runs, `GET /view` names the current primary, `GET /data` shows the
state of every component, and `POST /client/message` buffers a client request.  `HEAD` is answered
like `GET`, and no answer to it has a body.  Another method on one of these paths is refused with
status 405 and another path with status 404.
-/
namespace QuorumList.Http

/-- A request, as far as the service looks at it. -/
structure Request where
  method : String
  path : String
  mediaType : Option String
  body : Text
deriving Repr

/-- Why there is no such request. -/
inductive RequestFault where
  | method
  | target (fault : TargetFault)
  | mediaType
deriving DecidableEq, Repr

/-- The text of the fault. -/
def RequestFault.message : RequestFault → String
  | .method => "invalid HTTP method"
  | .target fault => fault.message
  | .mediaType => "failed to parse header value"

/-- The characters of a header. -/
def isHeaderChar (c : Char) : Bool :=
  (' ' ≤ c && c ≠ '\x7f') || c = '\t'

/-- The request with a given target. -/
def Request.make (method target : String) (mediaType : Option String) (body : Text) :
    Except RequestFault Request :=
  if method.isEmpty || !method.toList.all MediaType.isToken then .error .method
  else
    match Target.pathOf target with
    | .error fault => .error (.target fault)
    | .ok path =>
        if mediaType.all fun m => m.toList.all isHeaderChar then
          .ok
            { method := method
              path := String.ofList path
              mediaType := mediaType
              body := body }
        else .error .mediaType

/-- An answer. -/
structure Response where
  status : Nat
  body : Option Json
deriving Repr

namespace Response

/-- An answer with a body. -/
def json (status : Nat) (body : Json) : Response :=
  { status := status, body := some body }

/-- An answer that says what is wrong. -/
def error (status : Nat) (reason : String) : Response :=
  .json status (.object [("error", .string reason)])

/-- The method is not allowed on the path. -/
def methodNotAllowed : Response :=
  { status := 405, body := none }

/-- The answer without its body. -/
def withoutBody (r : Response) : Response :=
  { r with body := none }

end Response

/-! ### Client requests -/

/-- The body of a client request. -/
structure ClientMessage where
  operation : String
  value : Int
  client : ClientId
  timestamp : Option Nat
deriving DecidableEq, Repr

/-- Why the body of a client request is not used. -/
inductive BodyError where
  | notDeclaredJson
  | notJson
  | wrongShape
  | negativePop (index : Int)
  | unknownOperation (name : String)
deriving DecidableEq, Repr

namespace BodyError

/-- The text of the error. -/
def message : BodyError → String
  | .notDeclaredJson => "Expected request with \x60Content-Type: application/json\x60"
  | .notJson => "Failed to parse the request body as JSON"
  | .wrongShape => "Failed to deserialize the JSON body into the target type"
  | .negativePop index => s!"pop index {index} is negative"
  | .unknownOperation name => s!"unknown operation '{name}'"

end BodyError

namespace ClientMessage

open Json (Decoder)

/-- The parts of a client request; the client is client 0 unless one is named. -/
def fields : List (Json.Field ClientMessage) :=
  [ .make "operation" .required Decoder.string fun v m => { m with operation := v },
    .make "value" .required Decoder.signed fun v m => { m with value := v },
    .make "client_id" .optional Decoder.unsigned fun v m => { m with client := v },
    .make "timestamp" .optionalInObjects (Decoder.optional Decoder.unsigned) fun v m =>
      { m with timestamp := v } ]

/-- A client request from a JSON value. -/
def decoder : Decoder ClientMessage :=
  .record fields { operation := "", value := 0, client := 0, timestamp := none }

/-- Read the body of a request. -/
def ofRequest (r : Request) : Except BodyError ClientMessage :=
  match r.mediaType.bind fun m => MediaType.ofChars? m.toList with
  | some m =>
      if m.isJson then
        match (Json.Document.ofText r.body).decode decoder with
        | .ok message => .ok message
        | .error .malformed => .error .notJson
        | .error .mismatched => .error .wrongShape
      else .error .notDeclaredJson
  | none => .error .notDeclaredJson

/-- The operation that a client request names, in any case. -/
def operation? (m : ClientMessage) : Except BodyError Operation :=
  match String.ofList (m.operation.toList.map Char.toLower) with
  | "append" => .ok (.append m.value)
  | "prepend" => .ok (.prepend m.value)
  | "pop" => if m.value < 0 then .error (.negativePop m.value) else .ok (.pop m.value.toNat)
  | name => .error (.unknownOperation name)

/-- The request that is buffered; without a timestamp it gets the present time. -/
def toRequest (now : Nat) (m : ClientMessage) : Except BodyError ClientRequest := do
  let operation ← m.operation?
  pure
    { client := m.client
      timestamp := m.timestamp.getD now
      operation := operation }

end ClientMessage

/-! ### The service -/

/-- The status of a request that was not buffered: another try may help, or not. -/
def refusalStatus : Node.SubmitError → Nat
  | .refused (.pendingFull ..) => 503
  | .refused _ => 400
  | .notInstalled _ => 503

/-- Buffer the client request in the body of a request. -/
def submit (now : Nat) (r : Request) (node : Node) : Node × Response :=
  match ClientMessage.ofRequest r >>= ClientMessage.toRequest now with
  | .error e => (node, .error 400 e.message)
  | .ok q =>
      match node.submit q with
      | (node, .ok ()) =>
          (node, .json 200 (.object [("request", q.toJson), ("status", .string "accepted")]))
      | (node, .error e) => (node, .error (refusalStatus e) e.message)

/-- What the service has under a path. -/
inductive Resource where
  | root
  | view
  | data
  | clientMessage
deriving DecidableEq, Repr

namespace Resource

/-- The resource under a path. -/
def ofPath? : String → Option Resource
  | "/" => some .root
  | "/view" => some .view
  | "/data" => some .data
  | "/client/message" => some .clientMessage
  | _ => none

/-- What a resource to be looked at shows. -/
def content? (node : Node) : Resource → Option Json
  | .root => some (.object [("service", .string "BFTList API"), ("status", .string "running")])
  | .view => some (.object [("view", .optional .nat node.currentView)])
  | .data => some node.data
  | .clientMessage => none

end Resource

/-- Answer a request without regard to `HEAD` having no body. -/
def answer (now : Nat) (r : Request) (node : Node) : Node × Response :=
  match Resource.ofPath? r.path with
  | none => (node, .error 404 "not found")
  | some resource =>
      match resource.content? node with
      | some content =>
          if r.method = "GET" ∨ r.method = "HEAD" then (node, .json 200 content)
          else (node, .methodNotAllowed)
      | none => if r.method = "POST" then submit now r node else (node, .methodNotAllowed)

/-- Answer a request; `now` is the present time in microseconds. -/
def handle (now : Nat) (r : Request) (node : Node) : Node × Response :=
  let (node, response) := answer now r node
  (node, if r.method = "HEAD" then response.withoutBody else response)

end QuorumList.Http
