import QuorumList.Json.Value

/-!
Counters of a process.

Everything that is counted is an event; the counters are what a list of events adds up to.
-/
namespace QuorumList

/-- Something that is counted. -/
inductive Event where
  | messageSent
  | messageReceived
  | decodeFailure
  | backpressure
  | requestCommitted
  | requestRefused
  | localFlush
  | reset
  | viewEstablished
  | viewChangeRequest
deriving DecidableEq, Repr

/-- How often each event has happened. -/
structure Metrics where
  messagesSent : Nat
  messagesReceived : Nat
  decodeFailures : Nat
  backpressureEvents : Nat
  requestsCommitted : Nat
  requestsRefused : Nat
  localFlushes : Nat
  resets : Nat
  viewsEstablished : Nat
  viewChangeRequests : Nat
deriving DecidableEq, Repr, Inhabited

namespace Metrics

/-- Nothing has happened yet. -/
def zero : Metrics :=
  { messagesSent := 0
    messagesReceived := 0
    decodeFailures := 0
    backpressureEvents := 0
    requestsCommitted := 0
    requestsRefused := 0
    localFlushes := 0
    resets := 0
    viewsEstablished := 0
    viewChangeRequests := 0 }

/-- Count one event. -/
def count (m : Metrics) : Event → Metrics
  | .messageSent => { m with messagesSent := m.messagesSent + 1 }
  | .messageReceived => { m with messagesReceived := m.messagesReceived + 1 }
  | .decodeFailure => { m with decodeFailures := m.decodeFailures + 1 }
  | .backpressure => { m with backpressureEvents := m.backpressureEvents + 1 }
  | .requestCommitted => { m with requestsCommitted := m.requestsCommitted + 1 }
  | .requestRefused => { m with requestsRefused := m.requestsRefused + 1 }
  | .localFlush => { m with localFlushes := m.localFlushes + 1 }
  | .reset => { m with resets := m.resets + 1 }
  | .viewEstablished => { m with viewsEstablished := m.viewsEstablished + 1 }
  | .viewChangeRequest => { m with viewChangeRequests := m.viewChangeRequests + 1 }

/-- Count several events. -/
def countAll (m : Metrics) (events : List Event) : Metrics :=
  events.foldl count m

/-- The counters as a JSON value. -/
def toJson (m : Metrics) : Json :=
  .object
    [ ("backpressure_events", .nat m.backpressureEvents),
      ("decode_failures", .nat m.decodeFailures),
      ("local_flushes", .nat m.localFlushes),
      ("messages_received", .nat m.messagesReceived),
      ("messages_sent", .nat m.messagesSent),
      ("requests_committed", .nat m.requestsCommitted),
      ("requests_refused", .nat m.requestsRefused),
      ("ve_resets", .nat m.resets),
      ("view_change_requests", .nat m.viewChangeRequests),
      ("views_established", .nat m.viewsEstablished) ]

end Metrics

end QuorumList
