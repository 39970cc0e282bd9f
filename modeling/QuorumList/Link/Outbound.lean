import QuorumList.Link.Frame
import QuorumList.Link.Queue

/-!
The sending side of a link.

Texts wait in a bounded queue.  One payload at a time is in flight: it is sent under the current
token until that token has been acknowledged, and then the next token is due.  The acknowledgement
that came last is remembered, so a payload whose token it happens to name counts as delivered
without having been sent.  A text that spells no characters is dropped and uses no token.
-/
namespace QuorumList.Link

/-- The sending side of a link. -/
structure Outbound where
  queue : BoundedQueue Text
  /-- The token of the payload in flight, or of the next one. -/
  token : Nat
  inFlight : Option String
  /-- The token that was acknowledged last. -/
  acked : Option Nat
deriving Repr, Inhabited

namespace Outbound

/-- A link that has neither sent nor heard anything. -/
def new (capacity : Nat) : Outbound :=
  { queue := .empty capacity
    token := 0
    inFlight := none
    acked := none }

/-- Put a text into the queue, unless it is full. -/
def offer? (text : Text) (link : Outbound) : Option Outbound :=
  (link.queue.push? text).map fun queue => { link with queue := queue }

/-- Remember an acknowledgement. -/
def acknowledge (token : Nat) (link : Outbound) : Outbound :=
  { link with acked := some token }

/-- Look for the next payload to send: the token it gets, the payload if there is one, and how many
texts were taken for it. -/
def selectFrom (acked : Option Nat) : List Text → Nat → Nat × Option String × Nat
  | [], token => (token, none, 0)
  | text :: rest, token =>
      match text.toString? with
      | none =>
          let (token, payload, taken) := selectFrom acked rest token
          (token, payload, taken + 1)
      | some payload =>
          if acked = some token then
            let (token, payload, taken) := selectFrom acked rest (nextToken token)
            (token, payload, taken + 1)
          else (token, some payload, 1)

/-- The datagram that the link sends for the payload in flight. -/
def frames (link : Outbound) : List Frame :=
  match link.inFlight with
  | some payload => [.data link.token payload]
  | none => []

/-- Take the next payload from the queue. -/
def advance (token : Nat) (link : Outbound) : Outbound :=
  let (token, payload, taken) := selectFrom link.acked link.queue.items token
  { queue := link.queue.drop taken
    token := token
    inFlight := payload
    acked := link.acked }

/-- Let the link go on: a payload that has been acknowledged makes room for the next one, and the
payload in flight is sent, perhaps again. -/
def run (link : Outbound) : Outbound × List Frame :=
  let link :=
    match link.inFlight with
    | some _ => if link.acked = some link.token then link.advance (nextToken link.token) else link
    | none => link.advance link.token
  (link, link.frames)

/-- Let the link go on if no payload is in flight; otherwise it waits. -/
def runIfIdle (link : Outbound) : Outbound × List Frame :=
  if link.inFlight.isNone then link.run else (link, [])

end Outbound

end QuorumList.Link
