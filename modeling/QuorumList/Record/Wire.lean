import QuorumList.Record.Basic

/-!
Records as JSON values.

Every field of a record has a default, so a record may leave out any of them; the entries inside it
have to be complete.
-/
namespace QuorumList

namespace LogEntry

/-- A log entry as a JSON value. -/
def toJson (e : LogEntry) : Json :=
  .object [("request", e.request.toJson), ("x_set", e.executedBy.toJson)]

/-- A log entry from a JSON value. -/
def decoder : Json.Decoder LogEntry :=
  .record
    [ .make "request" .required AssignedRequest.decoder fun a e => { e with request := a },
      .make "x_set" .required NodeSet.decoder fun s e => { e with executedBy := s } ]
    { request := default, executedBy := .empty }

end LogEntry

namespace QueueEntry

/-- A queue entry as a JSON value. -/
def toJson (e : QueueEntry) : Json :=
  .object [("request", e.request.toJson), ("status", e.status.toJson)]

/-- A queue entry from a JSON value. -/
def decoder : Json.Decoder QueueEntry :=
  .record
    [ .make "request" .required AssignedRequest.decoder fun a e => { e with request := a },
      .make "status" .required StatusSet.decoder fun s e => { e with status := s } ]
    { request := default, status := .empty }

end QueueEntry

namespace LastReply

/-- A last reply as a JSON value. -/
def toJson (l : LastReply) : Json :=
  .object [("reply", .list .int l.reply), ("request", l.request.toJson)]

/-- A last reply from a JSON value. -/
def decoder : Json.Decoder LastReply :=
  .record
    [ .make "request" .required ClientRequest.decoder fun q l => { l with request := q },
      .make "reply" .required (.list .signed) fun s l => { l with reply := s } ]
    { request := default, reply := [] }

end LastReply

namespace Record

/-- A record as a JSON value. -/
def toJson (r : Record) : Json :=
  .object
    [ ("con_flag", .bool r.conflict),
      ("last_req", .list (.optional LastReply.toJson) r.replies),
      ("pend_reqs", .list ClientRequest.toJson r.pending),
      ("prim", r.view.toJson),
      ("r_log", .list LogEntry.toJson r.log),
      ("rep_state", .list .int r.state),
      ("req_q", .list QueueEntry.toJson r.queue),
      ("seq_num", .nat r.seq),
      ("view_changed", .bool r.viewChanged) ]

/-- A record from a JSON value. -/
def decoder : Json.Decoder Record :=
  .record
    [ .make "rep_state" .optional (.list .signed) fun s r => { r with state := s },
      .make "r_log" .optional (.list LogEntry.decoder) fun l r => { r with log := l },
      .make "pend_reqs" .optional (.list ClientRequest.decoder) fun p r => { r with pending := p },
      .make "req_q" .optional (.list QueueEntry.decoder) fun q r => { r with queue := q },
      .make "last_req" .optional (.list (.optional LastReply.decoder)) fun l r =>
        { r with replies := l },
      .make "seq_num" .optional .unsigned fun s r => { r with seq := s },
      .make "con_flag" .optional .bool fun c r => { r with conflict := c },
      .make "view_changed" .optional .bool fun c r => { r with viewChanged := c },
      .make "prim" .optional View.decoder fun v r => { r with view := v } ]
    blank

end Record

end QuorumList
