import QuorumList.View
import QuorumList.Json.Tagged

/-!
Operations on the replicated list, and the requests that carry them.

A client numbers its requests with timestamps; client and timestamp are the origin of a request.
The primary assigns a request to a view and a sequence number.  An assigned request then collects
statuses: proposed (`prePrep`), prepared (`prep`) and committed (`commit`).
-/
namespace QuorumList

/-- An operation on the replicated list of integers. -/
inductive Operation where
  | append (value : Int)
  | prepend (value : Int)
  | pop (index : Nat)
deriving DecidableEq, Repr, Inhabited

namespace Operation

/-- Apply an operation to the list.  Removing behind the end changes nothing. -/
def apply : Operation → List Int → List Int
  | .append x, state => state ++ [x]
  | .prepend x, state => x :: state
  | .pop i, state => state.eraseIdx i

/-- The kind of an operation, without its argument. -/
inductive Kind where
  | append
  | prepend
  | pop
deriving DecidableEq, Repr

/-- The names of the kinds. -/
def Kind.names : List (String × Kind) :=
  [("APPEND", .append), ("PREPEND", .prepend), ("POP", .pop)]

/-- The argument of an operation of a given kind: an index to remove at, and otherwise a value. -/
def argument : Kind → Json.Decoder Operation
  | .append => fun s => .append <$> Json.Decoder.signed s
  | .prepend => fun s => .prepend <$> Json.Decoder.signed s
  | .pop => fun s => .pop <$> Json.Decoder.unsigned s

/-- An operation from a JSON value. -/
def decoder : Json.Decoder Operation :=
  .paired "type" "value" Kind.names argument

/-- An operation as a JSON value. -/
def toJson : Operation → Json
  | .append x => .object [("type", .string "APPEND"), ("value", .int x)]
  | .prepend x => .object [("type", .string "PREPEND"), ("value", .int x)]
  | .pop i => .object [("type", .string "POP"), ("value", .nat i)]

/-- Operations are ordered by kind, then by argument. -/
def compare : Operation → Operation → Ordering
  | .append x, .append y => Ord.compare x y
  | .append _, _ => .lt
  | _, .append _ => .gt
  | .prepend x, .prepend y => Ord.compare x y
  | .prepend _, _ => .lt
  | _, .prepend _ => .gt
  | .pop i, .pop j => Ord.compare i j

end Operation

/-- A request as a client submits it. -/
structure ClientRequest where
  client : ClientId
  timestamp : Nat
  operation : Operation
deriving DecidableEq, Repr, Inhabited

namespace ClientRequest

/-- The requests come from the same client at the same timestamp. -/
def sameOrigin (q r : ClientRequest) : Bool :=
  q.client = r.client && q.timestamp = r.timestamp

/-- Requests are ordered by client, then by timestamp, then by operation. -/
def le (q r : ClientRequest) : Bool :=
  ((Ord.compare q.client r.client).then
    ((Ord.compare q.timestamp r.timestamp).then (q.operation.compare r.operation))).isLE

/-- A request as a JSON value. -/
def toJson (q : ClientRequest) : Json :=
  .object
    [ ("client_id", .nat q.client),
      ("operation", q.operation.toJson),
      ("timestamp", .nat q.timestamp) ]

/-- A request from a JSON value. -/
def decoder : Json.Decoder ClientRequest :=
  .record
    [ .make "client_id" .required .unsigned fun k q => { q with client := k },
      .make "timestamp" .required .unsigned fun t q => { q with timestamp := t },
      .make "operation" .required Operation.decoder fun o q => { q with operation := o } ]
    { client := 0, timestamp := 0, operation := .append 0 }

end ClientRequest

/-- A client request that a primary has bound to a view and a sequence number. -/
structure AssignedRequest where
  request : ClientRequest
  view : View
  seq : Nat
deriving DecidableEq, Repr, Inhabited

namespace AssignedRequest

/-- An assigned request as a JSON value. -/
def toJson (a : AssignedRequest) : Json :=
  .object
    [ ("client_request", a.request.toJson),
      ("seq_num", .nat a.seq),
      ("view", a.view.toJson) ]

/-- An assigned request from a JSON value. -/
def decoder : Json.Decoder AssignedRequest :=
  .record
    [ .make "client_request" .required ClientRequest.decoder fun q a => { a with request := q },
      .make "view" .required View.decoder fun v a => { a with view := v },
      .make "seq_num" .required .unsigned fun s a => { a with seq := s } ]
    { request := { client := 0, timestamp := 0, operation := .append 0 }, view := .tee, seq := 0 }

end AssignedRequest

/-- How far the agreement on an assigned request has come. -/
inductive Status where
  | prePrep
  | prep
  | commit
deriving DecidableEq, Repr

namespace Status

/-- The statuses in the order in which a request collects them, with their names. -/
def names : List (String × Status) :=
  [("PRE_PREP", .prePrep), ("PREP", .prep), ("COMMIT", .commit)]

/-- The name of a status. -/
def name : Status → String
  | .prePrep => "PRE_PREP"
  | .prep => "PREP"
  | .commit => "COMMIT"

/-- A status as a JSON value. -/
def toJson (status : Status) : Json :=
  .string status.name

/-- A status from a JSON value. -/
def decoder : Json.Decoder Status :=
  .named names

end Status

/-- The statuses that an assigned request has collected. -/
structure StatusSet where
  prePrep : Bool
  prep : Bool
  commit : Bool
deriving DecidableEq, Repr, Inhabited

namespace StatusSet

/-- No status. -/
def empty : StatusSet :=
  { prePrep := false, prep := false, commit := false }

/-- Proposed and prepared: the statuses of a request that a replica votes for. -/
def prepared : StatusSet :=
  { prePrep := true, prep := true, commit := false }

/-- The set holds a status. -/
def has (s : StatusSet) : Status → Bool
  | .prePrep => s.prePrep
  | .prep => s.prep
  | .commit => s.commit

/-- The set with one more status. -/
def insert (s : StatusSet) : Status → StatusSet
  | .prePrep => { s with prePrep := true }
  | .prep => { s with prep := true }
  | .commit => { s with commit := true }

/-- The statuses of the set, in their order. -/
def toList (s : StatusSet) : List Status :=
  [Status.prePrep, .prep, .commit].filter s.has

/-- A set of statuses as a JSON value. -/
def toJson (s : StatusSet) : Json :=
  .list Status.toJson s.toList

/-- A set of statuses from a JSON value; statuses may come in any order and more than once. -/
def decoder : Json.Decoder StatusSet := fun source => do
  let statuses ← Json.Decoder.list Status.decoder source
  pure (statuses.foldl insert empty)

end StatusSet

end QuorumList
