import Mathlib.Data.List.Induction
import QuorumList.Endpoint
import QuorumList.Proofs.Decoding

/-!
What a link loses.

A link sends its payloads one at a time, each under the next token, and goes on when the token has
been acknowledged.  The network may lose, repeat, delay and reorder whatever is sent.  As long as no
token comes round again, an acknowledgement stands for a payload that was handed on, with one
exception: the receiver may still hold the token of the first payload from an earlier time.
-/
namespace QuorumList

open Json Json.Decoder

/-! ### Frames there and back -/

namespace Link.Frame

/-- The token of a frame has 32 bits. -/
def token : Frame → Nat
  | .data token _ => token
  | .ack token => token

/-- The kind of a frame. -/
def kind : Frame → Kind
  | .data .. => .data
  | .ack _ => .ack

theorem reads {frame : Frame} (fits : frame.token ≤ 0xffffffff) :
    decoder.Reads maxNesting frame.toJson frame := by
  have bound : 0xffffffff ≤ maxUnsigned := by decide
  cases frame with
  | data token payload =>
      have number : (naturalTo 0xffffffff).Reads (maxNesting - 1) (.nat token) token :=
        reads_naturalTo fits bound
      have text : Decoder.string.Reads (maxNesting - 1) (.string payload) payload :=
        reads_string payload
      have draft : (Decoder.record [tokenField, payloadField] { token := 0, payload := "" }).Reads
          maxNesting (.object [("token", .nat token), ("payload", .string payload)])
          { token := token, payload := payload } :=
        reads_record
          (.cons (Field.reads_make number rfl) (.cons (Field.reads_make text rfl) .nil))
          (by simp) rfl rfl
      have parts : (partsDecoder .data).Reads maxNesting
          (.object [("token", .nat token), ("payload", .string payload)]) (.data token payload) :=
        ⟨draft.settles, fun spell spells => bind_eq_ok.mpr ⟨_, draft.reads spell spells, rfl⟩⟩
      exact reads_mixed (reads_refine (reads_string "DATA") rfl) (by simp) parts (by simp)
        (by simp [number.settles, text.settles])
  | ack token =>
      have number : (naturalTo 0xffffffff).Reads (maxNesting - 1) (.nat token) token :=
        reads_naturalTo fits bound
      have draft : (Decoder.record [tokenField] { token := 0, payload := "" }).Reads maxNesting
          (.object [("token", .nat token)]) { token := token, payload := "" } :=
        reads_record (.cons (Field.reads_make number rfl) .nil) (by simp) rfl rfl
      have parts : (partsDecoder .ack).Reads maxNesting (.object [("token", .nat token)])
          (.ack token) :=
        ⟨draft.settles, fun spell spells => bind_eq_ok.mpr ⟨_, draft.reads spell spells, rfl⟩⟩
      exact reads_mixed (reads_refine (reads_string "ACK") rfl) (by simp) parts (by simp)
        (by simp [number.settles])

/-- A frame is read back from its datagram. -/
theorem decode?_encode {frame : Frame} (fits : frame.token ≤ 0xffffffff) :
    decode? (.ofString frame.encode) = some frame := by
  rw [decode?, encode, (reads fits).decode]
  rfl

end Link.Frame

/-! ### Links -/

namespace Links

variable {links : Links} {peer other : NodeId} {outbound : Link.Outbound}

theorem link?_setLink (found : links.link? peer = some outbound) (next : Link.Outbound) :
    (links.setLink peer next).link? peer = some next := by
  unfold link? at found ⊢
  simp only [setLink, List.find?_map, Option.map_map, Option.map_eq_some_iff] at found ⊢
  obtain ⟨p, first, -⟩ := found
  have own : p.peer = peer := by simpa using List.find?_some first
  refine ⟨p, ?_, by simp [own]⟩
  rw [← first]
  congr 1
  funext q
  by_cases same : q.peer = peer <;> simp [same]

theorem link?_setLink_of_ne (different : other ≠ peer) (next : Link.Outbound) :
    (links.setLink other next).link? peer = links.link? peer := by
  unfold link?
  simp only [setLink, List.find?_map, Option.map_map]
  have keys : ((fun p : PeerLink => decide (p.peer = peer)) ∘
      fun p => if p.peer = other then { p with outbound := next } else p) =
        fun p => decide (p.peer = peer) := by
    funext q
    by_cases same : q.peer = other <;> simp [same]
  rw [keys]
  cases first : links.peers.find? fun p => p.peer = peer with
  | none => rfl
  | some p =>
      have own : p.peer = peer := by simpa using List.find?_some first
      have notOther : p.peer ≠ other := own.trans_ne (Ne.symm different)
      simp [notOther]

end Links

namespace Link.Outbound

/-- The payloads that the link has taken and not yet seen acknowledged, in their order. -/
def outstanding (link : Outbound) : List String :=
  link.inFlight.toList ++ link.queue.items.filterMap Text.toString?

/-- The token has been sent in a frame. -/
def Sent (link : Outbound) (token : Nat) : Prop :=
  token < link.token ∨ token = link.token ∧ link.inFlight.isSome

/-- A payload whose token has not been acknowledged is not passed over. -/
theorem selectFrom_of_ne {acked : Option Nat} {token : Nat} (new : acked ≠ some token)
    (items : List Text) :
    ∃ payload taken, selectFrom acked items token = (token, payload, taken) ∧
      payload.toList ++ (items.drop taken).filterMap Text.toString? =
        items.filterMap Text.toString? := by
  induction items with
  | nil => exact ⟨none, 0, rfl, rfl⟩
  | cons text rest ih =>
      cases spelled : text.toString? with
      | none =>
          obtain ⟨payload, taken, selected, same⟩ := ih
          refine ⟨payload, taken + 1, ?_, ?_⟩
          · simp only [selectFrom, spelled, selected]
          · rw [List.drop_succ_cons, same, List.filterMap_cons_none spelled]
      | some payload =>
          refine ⟨some payload, 1, ?_, ?_⟩
          · simp only [selectFrom, spelled, if_neg new]
          · rw [List.drop_succ_cons, List.drop_zero, List.filterMap_cons_some spelled]
            rfl

theorem advance_of_ne {link : Outbound} {token : Nat} (new : link.acked ≠ some token) :
    (link.advance token).token = token ∧ (link.advance token).acked = link.acked ∧
      (link.advance token).outstanding = link.queue.items.filterMap Text.toString? := by
  obtain ⟨payload, taken, selected, same⟩ := selectFrom_of_ne new link.queue.items
  simp only [advance, selected, outstanding]
  exact ⟨trivial, trivial, same⟩

/-- In a run the link keeps its token and all that is outstanding, or the payload in flight has been
acknowledged and the next token is due. -/
theorem run_cases {link : Outbound} (sent : ∀ token, link.acked = some token → link.Sent token)
    (few : link.token + link.outstanding.length < tokenCount) :
    link.run.1.acked = link.acked ∧
      ((link.run.1.token = link.token ∧ link.run.1.outstanding = link.outstanding ∧
          (link.inFlight.isSome → link.run.1.inFlight.isSome)) ∨
        (link.acked = some link.token ∧ link.run.1.token = link.token + 1 ∧
          ∃ payload, link.outstanding = payload :: link.run.1.outstanding)) := by
  cases flying : link.inFlight with
  | none =>
      have new : link.acked ≠ some link.token := by
        intro acked
        rcases sent link.token acked with below | ⟨-, inFlight⟩
        · omega
        · simp [flying] at inFlight
      obtain ⟨token, acked, outstanding⟩ := advance_of_ne new
      simp only [run, flying]
      refine ⟨acked, .inl ⟨token, ?_, by simp⟩⟩
      rw [outstanding, Outbound.outstanding, flying]
      rfl
  | some payload =>
      by_cases acknowledged : link.acked = some link.token
      · have room : link.token + 1 < tokenCount := by
          simp only [outstanding, flying, Option.toList_some, List.length_append,
            List.length_singleton] at few
          omega
        have next : nextToken link.token = link.token + 1 := Nat.mod_eq_of_lt room
        have new : link.acked ≠ some (link.token + 1) := by
          rw [acknowledged]
          simp
        obtain ⟨token, acked, outstanding⟩ := advance_of_ne new
        simp only [run, flying, if_pos acknowledged, next]
        refine ⟨acked, .inr ⟨acknowledged, token, payload, ?_⟩⟩
        rw [outstanding, Outbound.outstanding, flying]
        rfl
      · simp only [run, flying, if_neg acknowledged]
        exact ⟨trivial, .inl ⟨trivial, trivial, by simp⟩⟩

/-- Whatever was sent stays sent. -/
theorem Sent.run {link : Outbound} {token : Nat} (sent : link.Sent token)
    (acks : ∀ token, link.acked = some token → link.Sent token)
    (few : link.token + link.outstanding.length < tokenCount) : link.run.1.Sent token := by
  obtain ⟨-, ⟨same, -, flying⟩ | ⟨-, next, -⟩⟩ := run_cases acks few
  · rcases sent with below | ⟨rfl, inFlight⟩
    · exact .inl (same ▸ below)
    · exact .inr ⟨same.symm, flying inFlight⟩
  · rcases sent with below | ⟨rfl, -⟩
    · exact .inl (by omega)
    · exact .inl (by omega)

/-- A frame carries the payload in flight, which is the first one outstanding. -/
theorem of_mem_frames {link : Outbound} {frame : Frame} (member : frame ∈ link.frames) :
    ∃ payload, frame = .data link.token payload ∧ link.inFlight.isSome ∧
      link.outstanding[0]? = some payload := by
  cases flying : link.inFlight with
  | none => simp [frames, flying] at member
  | some payload =>
      simp only [frames, flying, List.mem_singleton] at member
      exact ⟨payload, member, rfl, by simp [outstanding, flying]⟩

end Link.Outbound

/-! ### What is handed on -/

namespace Endpoint

/-- The token and payload that are handed on when a datagram of a process arrives. -/
def hands? (route : Link.Route) (sender : NodeId) (datagram : Text) (endpoint : Endpoint) :
    Option (Nat × String) :=
  match route, Link.Frame.decode? datagram with
  | .reachable, some (.data token payload) =>
      if (endpoint.inbound.accept sender token).1 then some (token, payload) else none
  | _, _ => none

variable {route : Link.Route} {address : Net.SocketAddress} {datagram : Text}
  {endpoint : Endpoint} {sender peer : NodeId} {other : Net.SocketAddress}

/-- The process gets exactly what is handed on. -/
theorem node_receive (known : endpoint.hosts.nodeAt? address = some sender) :
    (endpoint.receive route address datagram).1.node =
      match endpoint.hands? route sender datagram with
      | some (_, payload) => (endpoint.node.onMessage sender (.ofString payload)).1
      | none => endpoint.node := by
  unfold receive hands? handle
  rw [known]
  cases Link.Frame.decode? datagram with
  | none => cases route <;> rfl
  | some frame =>
      cases frame with
      | ack token => cases route <;> rfl
      | data token payload =>
          cases route with
          | unreachable => rfl
          | reachable =>
              dsimp only
              cases (endpoint.inbound.accept sender token).1 <;> rfl

theorem nodeAt?_receive (known : endpoint.hosts.nodeAt? other = some peer) :
    (endpoint.receive route address datagram).1.hosts.nodeAt? other = some peer := by
  rw [← known]
  unfold receive
  split
  · unfold handle
    split
    · split
      · rfl
      · dsimp only
        split <;> rfl
    · rfl
  · rfl

/-- What a process last accepted from another one changes only with a data frame of that one. -/
theorem last_receive
    (foreign : ¬ (endpoint.hosts.nodeAt? address = some sender ∧
      (Link.Frame.decode? datagram).map Link.Frame.kind = some .data)) :
    (endpoint.receive route address datagram).1.inbound.last[sender]? =
      endpoint.inbound.last[sender]? := by
  unfold receive
  split
  · next other frame known decoded =>
      unfold handle
      split
      · next token payload =>
          have different : other ≠ sender := by
            rintro rfl
            exact foreign ⟨known, by rw [decoded]; rfl⟩
          split
          · rfl
          · have accepted : (endpoint.inbound.accept other token).2.last[sender]? =
                endpoint.inbound.last[sender]? := by
              unfold Link.Inbound.accept
              split
              · rfl
              · split
                · rfl
                · exact List.getElem?_set_ne different
            dsimp only
            split <;> exact accepted
      · rfl
  · rfl

/-- A link changes only with an acknowledgement of the process to which it leads. -/
theorem link?_receive
    (foreign : ¬ (endpoint.hosts.nodeAt? address = some peer ∧
      (Link.Frame.decode? datagram).map Link.Frame.kind = some .ack)) :
    (endpoint.receive route address datagram).1.links.link? peer =
      endpoint.links.link? peer := by
  unfold receive
  split
  · next other frame known decoded =>
      unfold handle
      split
      · split
        · rfl
        · dsimp only
          split <;> rfl
      · next token =>
          have different : other ≠ peer := by
            rintro rfl
            exact foreign ⟨known, by rw [decoded]; rfl⟩
          dsimp only [Links.acknowledge]
          split
          · rfl
          · exact Links.link?_setLink_of_ne different _
  · rfl

/-- A data frame is acknowledged, and handed on unless its token repeats the last one. -/
theorem receive_data {token : Nat} {payload : String} {last : Option Nat}
    (known : endpoint.hosts.nodeAt? address = some sender)
    (decoded : Link.Frame.decode? datagram = some (.data token payload))
    (held : endpoint.inbound.last[sender]? = some last) :
    (endpoint.receive .reachable address datagram).2 = some (.ack token) ∧
      ((last = some token ∧ endpoint.hands? .reachable sender datagram = none ∧
          (endpoint.receive .reachable address datagram).1.inbound.last[sender]? = some last) ∨
        endpoint.hands? .reachable sender datagram = some (token, payload) ∧
          (endpoint.receive .reachable address datagram).1.inbound.last[sender]? =
            some (some token)) := by
  have inTable : sender < endpoint.inbound.last.length := (List.getElem?_eq_some_iff.mp held).1
  simp only [receive, known, decoded, handle, hands?, Link.Inbound.accept, held, true_and]
  by_cases repeats : last = some token
  · left
    simp [repeats, held]
  · right
    simp [repeats, deliver, inTable]

theorem receive_unreachable (known : endpoint.hosts.nodeAt? address = some sender) {token : Nat}
    {payload : String} (decoded : Link.Frame.decode? datagram = some (.data token payload)) :
    endpoint.receive .unreachable address datagram = (endpoint, none) ∧
      endpoint.hands? .unreachable sender datagram = none := by
  simp [receive, known, decoded, handle, hands?]

theorem link?_receive_ack {token : Nat} {link : Link.Outbound}
    (known : endpoint.hosts.nodeAt? address = some sender)
    (decoded : Link.Frame.decode? datagram = some (.ack token))
    (found : endpoint.links.link? sender = some link) :
    (endpoint.receive route address datagram).1.links.link? sender =
      some (link.acknowledge token) := by
  simp only [receive, known, decoded, handle, Links.acknowledge, found]
  exact Links.link?_setLink found _

end Endpoint

/-! ### Two processes and what is sent between them -/

/-- The two ends of a link: who they are, and where each finds the other. -/
structure Ends where
  source : NodeId
  target : NodeId
  sourceAddress : Net.SocketAddress
  targetAddress : Net.SocketAddress
deriving DecidableEq, Repr

/-- The processes at the two ends of a link, what was put into its queue, everything that was ever
sent over it and back, and what was handed on at the other end, with its token. -/
structure Connection where
  source : Endpoint
  target : Endpoint
  offered : List Text
  data : List String
  acks : List String
  handed : List (Nat × String)

namespace Connection

/-- Something that happens on a connection. -/
inductive Action where
  /-- A text is put into the queue. -/
  | offer (text : Text)
  /-- The link goes on. -/
  | run
  /-- A datagram of the link arrives, by any route, at any time and any number of times. -/
  | arrive (route : Link.Route) (index : Nat)
  /-- Something arrives that was sent back. -/
  | answer (route : Link.Route) (index : Nat)
  /-- A datagram that is no data frame of the source arrives at the target. -/
  | targetHears (route : Link.Route) (address : Net.SocketAddress) (datagram : Text)
  /-- A datagram that is no acknowledgement of the target arrives at the source. -/
  | sourceHears (route : Link.Route) (address : Net.SocketAddress) (datagram : Text)
  /-- The processes do something else. -/
  | work (source target : Node)

/-- The state before anything was sent: what waits in the queue was offered. -/
def start (source target : Endpoint) (waiting : List Text) : Connection :=
  { source := source
    target := target
    offered := waiting
    data := []
    acks := []
    handed := [] }

/-- What an action makes of a connection. -/
def act (ends : Ends) (s : Connection) : Action → Connection
  | .offer text =>
      match s.source.links.offer? ends.target text with
      | none => s
      | some links =>
          { s with source := { s.source with links := links }, offered := s.offered ++ [text] }
  | .run =>
      match s.source.links.link? ends.target with
      | none => s
      | some link =>
          { s with
            source := { s.source with links := s.source.links.setLink ends.target link.run.1 }
            data := s.data ++ link.run.2.map Link.Frame.encode }
  | .arrive route index =>
      match s.data[index]? with
      | none => s
      | some datagram =>
          let (target, reply) := s.target.receive route ends.sourceAddress (.ofString datagram)
          { s with
            target := target
            acks := s.acks ++ (reply.map Link.Frame.encode).toList
            handed :=
              s.handed ++ (s.target.hands? route ends.source (.ofString datagram)).toList }
  | .answer route index =>
      match s.acks[index]? with
      | none => s
      | some datagram =>
          { s with
            source := (s.source.receive route ends.targetAddress (.ofString datagram)).1 }
  | .targetHears route address datagram =>
      if s.target.hosts.nodeAt? address = some ends.source ∧
          (Link.Frame.decode? datagram).map Link.Frame.kind = some .data then s
      else { s with target := (s.target.receive route address datagram).1 }
  | .sourceHears route address datagram =>
      if s.source.hosts.nodeAt? address = some ends.target ∧
          (Link.Frame.decode? datagram).map Link.Frame.kind = some .ack then s
      else { s with source := (s.source.receive route address datagram).1 }
  | .work source target =>
      { s with
        source := { s.source with node := source }
        target := { s.target with node := target } }

/-- What a sequence of actions makes of a connection. -/
def runs (ends : Ends) (s : Connection) (actions : List Action) : Connection :=
  actions.foldl (act ends) s

/-- The payloads that were put into the queue: texts that spell no characters are none. -/
def payloads (s : Connection) : List String :=
  s.offered.filterMap Text.toString?

/-- The processes know each other, and the link has neither sent nor heard anything.  The target may
have accepted any token of the source before. -/
structure Fresh (ends : Ends) (before : Option Nat) (source target : Endpoint)
    (waiting : List Text) : Prop where
  sourceKnows : source.hosts.nodeAt? ends.targetAddress = some ends.target
  targetKnows : target.hosts.nodeAt? ends.sourceAddress = some ends.source
  last : target.inbound.last[ends.source]? = some before
  link : ∃ link, source.links.link? ends.target = some link ∧ link.token = 0 ∧
    link.inFlight = none ∧ link.acked = none ∧ link.queue.items = waiting

/-- The payload of a token was handed on, or it is the first one and its token was repeated from
before. -/
def Settled (before : Option Nat) (s : Connection) (token : Nat) : Prop :=
  (∃ payload, (token, payload) ∈ s.handed) ∨ token = 0 ∧ before = some 0

/-- Tokens count the payloads, acknowledgements stand for payloads that are settled, and all
payloads before the token of the link are. -/
structure Sound (ends : Ends) (before : Option Nat) (s : Connection) (link : Link.Outbound) :
    Prop where
  sourceKnows : s.source.hosts.nodeAt? ends.targetAddress = some ends.target
  targetKnows : s.target.hosts.nodeAt? ends.sourceAddress = some ends.source
  found : s.source.links.link? ends.target = some link
  counted : ∃ passed, s.payloads = passed ++ link.outstanding ∧ link.token = passed.length
  data : ∀ d ∈ s.data, ∃ token payload, d = (Link.Frame.data token payload).encode ∧
    s.payloads[token]? = some payload ∧ link.Sent token
  acks : ∀ d ∈ s.acks, ∃ token, d = (Link.Frame.ack token).encode ∧ link.Sent token ∧
    s.Settled before token
  acked : ∀ token, link.acked = some token → link.Sent token ∧ s.Settled before token
  passed : ∀ token, token < link.token → s.Settled before token
  handed : ∀ token payload, (token, payload) ∈ s.handed → s.payloads[token]? = some payload
  last : ∃ last, s.target.inbound.last[ends.source]? = some last ∧
    (last = before ∧ s.handed = [] ∨
      ∃ token payload, last = some token ∧ (token, payload) ∈ s.handed)

variable {ends : Ends} {before : Option Nat} {s : Connection} {link : Link.Outbound}

theorem sound_start {source target : Endpoint} {waiting : List Text}
    (fresh : Fresh ends before source target waiting) :
    ∃ link, Sound ends before (start source target waiting) link := by
  obtain ⟨link, found, token, flying, acked, items⟩ := fresh.link
  refine ⟨link, fresh.sourceKnows, fresh.targetKnows, found, ⟨[], ?_, token⟩, ?_, ?_, ?_, ?_, ?_,
    ⟨before, fresh.last, .inl ⟨rfl, rfl⟩⟩⟩
  · simp [payloads, start, Link.Outbound.outstanding, flying, items]
  · exact fun _ member => absurd member List.not_mem_nil
  · exact fun _ member => absurd member List.not_mem_nil
  · simp [acked]
  · simp [token]
  · exact fun _ _ member => absurd member List.not_mem_nil

namespace Sound

/-- A token that has been sent is that of a payload. -/
theorem token_lt (sound : Sound ends before s link) {token : Nat} (sent : link.Sent token) :
    token < s.payloads.length := by
  obtain ⟨passed, whole, counted⟩ := sound.counted
  rw [whole, List.length_append, ← counted]
  rcases sent with below | ⟨rfl, flying⟩
  · omega
  · obtain ⟨payload, found⟩ := Option.isSome_iff_exists.mp flying
    simp only [Link.Outbound.outstanding, found, Option.toList_some, List.length_append,
      List.length_singleton]
    omega

theorem decode_data (sound : Sound ends before s link) (few : s.payloads.length < Link.tokenCount)
    {token : Nat} (sent : link.Sent token) (payload : String) :
    Link.Frame.decode? (.ofString (Link.Frame.data token payload).encode) =
      some (.data token payload) := by
  have below := sound.token_lt sent
  refine Link.Frame.decode?_encode ?_
  simp only [Link.Frame.token, Link.tokenCount] at few ⊢
  omega

theorem decode_ack (sound : Sound ends before s link) (few : s.payloads.length < Link.tokenCount)
    {token : Nat} (sent : link.Sent token) :
    Link.Frame.decode? (.ofString (Link.Frame.ack token).encode) = some (.ack token) := by
  have below := sound.token_lt sent
  refine Link.Frame.decode?_encode ?_
  simp only [Link.Frame.token, Link.tokenCount] at few ⊢
  omega

theorem offer (sound : Sound ends before s link) (text : Text) :
    ∃ link', Sound ends before (s.act ends (.offer text)) link' := by
  cases pushed : link.queue.push? text with
  | none =>
      have unchanged : s.act ends (.offer text) = s := by
        simp [Connection.act, Links.offer?, sound.found, Link.Outbound.offer?, pushed]
      rw [unchanged]
      exact ⟨link, sound⟩
  | some queue =>
      have changed : s.act ends (.offer text) =
          { s with
            source :=
              { s.source with
                links := s.source.links.setLink ends.target { link with queue := queue } }
            offered := s.offered ++ [text] } := by
        simp [Connection.act, Links.offer?, sound.found, Link.Outbound.offer?, pushed]
      have items := Link.BoundedQueue.items_of_push? pushed
      have longer {token : Nat} {payload : String} (named : s.payloads[token]? = some payload) :
          ((s.offered ++ [text]).filterMap Text.toString?)[token]? = some payload := by
        rw [payloads] at named
        rw [List.filterMap_append,
          List.getElem?_append_left (List.getElem?_eq_some_iff.mp named).1]
        exact named
      obtain ⟨passed, whole, counted⟩ := sound.counted
      rw [changed]
      refine ⟨{ link with queue := queue }, sound.sourceKnows, sound.targetKnows,
        Links.link?_setLink sound.found _, ⟨passed, ?_, counted⟩, ?_, sound.acks, sound.acked,
        sound.passed, ?_, sound.last⟩
      · rw [payloads] at whole
        simp only [payloads, List.filterMap_append, whole, Link.Outbound.outstanding, items,
          List.append_assoc]
      · intro d member
        obtain ⟨token, payload, written, named, sent⟩ := sound.data d member
        exact ⟨token, payload, written, longer named, sent⟩
      · exact fun token payload member => longer (sound.handed token payload member)

theorem run (sound : Sound ends before s link) (few : s.payloads.length < Link.tokenCount) :
    ∃ link', Sound ends before (s.act ends .run) link' := by
  have changed : s.act ends .run =
      { s with
        source := { s.source with links := s.source.links.setLink ends.target link.run.1 }
        data := s.data ++ link.run.2.map Link.Frame.encode } := by
    simp [Connection.act, sound.found]
  obtain ⟨passed, whole, counted⟩ := sound.counted
  have room : link.token + link.outstanding.length < Link.tokenCount := by
    rw [whole, List.length_append] at few
    omega
  have acks := fun token acked => (sound.acked token acked).1
  obtain ⟨acked, progress⟩ := link.run_cases acks room
  have settled : ∀ token, token < link.run.1.token → s.Settled before token := by
    rcases progress with ⟨same, -, -⟩ | ⟨acknowledged, next, -⟩
    · rw [same]
      exact sound.passed
    · intro token below
      by_cases now : token = link.token
      · exact now ▸ (sound.acked link.token acknowledged).2
      · exact sound.passed token (by omega)
  obtain ⟨passed', whole', counted'⟩ : ∃ passed, s.payloads = passed ++ link.run.1.outstanding ∧
      link.run.1.token = passed.length := by
    rcases progress with ⟨same, outstanding, -⟩ | ⟨-, next, payload, outstanding⟩
    · exact ⟨passed, by rw [whole, outstanding], same.trans counted⟩
    · refine ⟨passed ++ [payload], ?_, ?_⟩
      · rw [whole, outstanding, List.append_assoc]
        rfl
      · rw [next, counted, List.length_append, List.length_singleton]
  rw [changed]
  refine ⟨link.run.1, sound.sourceKnows, sound.targetKnows, Links.link?_setLink sound.found _,
    ⟨passed', whole', counted'⟩, ?_, ?_, ?_, settled, sound.handed, sound.last⟩
  · intro d member
    rcases List.mem_append.mp member with earlier | now
    · obtain ⟨token, payload, written, named, known⟩ := sound.data d earlier
      exact ⟨token, payload, written, named, known.run acks room⟩
    · obtain ⟨frame, sent, rfl⟩ := List.mem_map.mp now
      have sent : frame ∈ link.run.1.frames := sent
      obtain ⟨payload, rfl, flying, first⟩ := Link.Outbound.of_mem_frames sent
      have named : s.payloads[link.run.1.token]? = some payload := by
        rw [whole', counted', List.getElem?_append_right (Nat.le_refl _), Nat.sub_self, first]
      exact ⟨link.run.1.token, payload, rfl, named, .inr ⟨rfl, flying⟩⟩
  · intro d member
    obtain ⟨token, written, known, settled⟩ := sound.acks d member
    exact ⟨token, written, known.run acks room, settled⟩
  · intro token acknowledged
    rw [acked] at acknowledged
    exact ⟨(acks token acknowledged).run acks room, (sound.acked token acknowledged).2⟩

/-- A frame that the target takes for a repetition has been handed on, or is the first one. -/
theorem settled_of_last (sound : Sound ends before s link) {token : Nat} (sent : link.Sent token)
    (repeats : s.target.inbound.last[ends.source]? = some (some token)) :
    s.Settled before token := by
  obtain ⟨last, held, origin⟩ := sound.last
  rw [repeats, Option.some.injEq] at held
  subst held
  rcases origin with ⟨old, nothing⟩ | ⟨_, payload, same, given⟩
  · -- Nothing was handed on yet, so the link has passed the first payload at most.
    have first {earlier : Nat} (settled : s.Settled before earlier) :
        earlier = 0 ∧ before = some 0 := by
      rcases settled with ⟨payload, given⟩ | first
      · rw [nothing] at given
        exact absurd given List.not_mem_nil
      · exact first
    rcases sent with below | ⟨current, -⟩
    · exact sound.passed token below
    · by_cases start : token = 0
      · exact .inr ⟨start, start ▸ old.symm⟩
      · obtain ⟨-, zero⟩ := first (sound.passed 0 (by omega))
        rw [zero, Option.some.injEq] at old
        exact absurd old start
  · cases same
    exact .inl ⟨payload, given⟩

section Arrivals

variable (sound : Sound ends before s link) {target : Endpoint} {token : Nat}
  (knows : target.hosts.nodeAt? ends.sourceAddress = some ends.source) (sent : link.Sent token)
include sound knows sent

/-- The target may acknowledge what is settled. -/
theorem acknowledge
    (kept : target.inbound.last[ends.source]? = s.target.inbound.last[ends.source]?)
    (settled : s.Settled before token) :
    Sound ends before
      { s with target := target, acks := s.acks ++ [(Link.Frame.ack token).encode] } link := by
  obtain ⟨last, held, origin⟩ := sound.last
  refine ⟨sound.sourceKnows, knows, sound.found, sound.counted, sound.data, ?_, sound.acked,
    sound.passed, sound.handed, ⟨last, kept.trans held, origin⟩⟩
  intro d member
  rcases List.mem_append.mp member with earlier | now
  · exact sound.acks d earlier
  · exact ⟨token, List.mem_singleton.mp now, sent, settled⟩

/-- The target may hand on what was sent. -/
theorem hand {payload : String} (named : s.payloads[token]? = some payload)
    (accepted : target.inbound.last[ends.source]? = some (some token)) :
    Sound ends before
      { s with
        target := target
        acks := s.acks ++ [(Link.Frame.ack token).encode]
        handed := s.handed ++ [(token, payload)] } link := by
  have given : (token, payload) ∈ s.handed ++ [(token, payload)] :=
    List.mem_append_right _ (List.mem_singleton.mpr rfl)
  have later {earlier : Nat} (settled : s.Settled before earlier) :
      (∃ p, (earlier, p) ∈ s.handed ++ [(token, payload)]) ∨ earlier = 0 ∧ before = some 0 :=
    settled.imp_left fun ⟨p, before⟩ => ⟨p, List.mem_append_left _ before⟩
  refine ⟨sound.sourceKnows, knows, sound.found, sound.counted, sound.data, ?_, ?_,
    fun earlier below => later (sound.passed earlier below), ?_,
    ⟨_, accepted, .inr ⟨token, payload, rfl, given⟩⟩⟩
  · intro d member
    rcases List.mem_append.mp member with earlier | now
    · obtain ⟨token, written, known, settled⟩ := sound.acks d earlier
      exact ⟨token, written, known, later settled⟩
    · exact ⟨token, List.mem_singleton.mp now, sent, .inl ⟨payload, given⟩⟩
  · intro earlier acknowledged
    obtain ⟨known, settled⟩ := sound.acked earlier acknowledged
    exact ⟨known, later settled⟩
  · intro earlier p member
    rcases List.mem_append.mp member with before | now
    · exact sound.handed earlier p before
    · cases List.mem_singleton.mp now
      exact named

end Arrivals

theorem arrive (sound : Sound ends before s link) (few : s.payloads.length < Link.tokenCount)
    (route : Link.Route) (index : Nat) :
    ∃ link', Sound ends before (s.act ends (.arrive route index)) link' := by
  cases sent : s.data[index]? with
  | none =>
      have unchanged : s.act ends (.arrive route index) = s := by simp [Connection.act, sent]
      rw [unchanged]
      exact ⟨link, sound⟩
  | some d =>
      obtain ⟨token, payload, rfl, named, known⟩ := sound.data d (List.mem_of_getElem? sent)
      have decoded := sound.decode_data few known payload
      simp only [Connection.act, sent]
      refine ⟨link, ?_⟩
      cases route with
      | unreachable =>
          obtain ⟨received, nothing⟩ := Endpoint.receive_unreachable sound.targetKnows decoded
          rw [received, nothing]
          simpa using sound
      | reachable =>
          obtain ⟨last, held, -⟩ := sound.last
          obtain ⟨reply, taken⟩ := Endpoint.receive_data sound.targetKnows decoded held
          rw [reply]
          rcases taken with ⟨rfl, nothing, kept⟩ | ⟨handed, accepted⟩
          · rw [nothing]
            simp only [Option.toList_none, List.append_nil, Option.map_some, Option.toList_some]
            have settled := sound.settled_of_last known held
            exact sound.acknowledge (Endpoint.nodeAt?_receive sound.targetKnows) known
              (kept.trans held.symm) settled
          · rw [handed]
            exact sound.hand (Endpoint.nodeAt?_receive sound.targetKnows) known named accepted

theorem answer (sound : Sound ends before s link) (few : s.payloads.length < Link.tokenCount)
    (route : Link.Route) (index : Nat) :
    ∃ link', Sound ends before (s.act ends (.answer route index)) link' := by
  cases sent : s.acks[index]? with
  | none =>
      have unchanged : s.act ends (.answer route index) = s := by simp [Connection.act, sent]
      rw [unchanged]
      exact ⟨link, sound⟩
  | some d =>
      have changed : s.act ends (.answer route index) =
          { s with
            source := (s.source.receive route ends.targetAddress (.ofString d)).1 } := by
        simp [Connection.act, sent]
      obtain ⟨token, rfl, known, settled⟩ := sound.acks d (List.mem_of_getElem? sent)
      rw [changed]
      refine ⟨link.acknowledge token, Endpoint.nodeAt?_receive sound.sourceKnows,
        sound.targetKnows,
        Endpoint.link?_receive_ack sound.sourceKnows (sound.decode_ack few known) sound.found,
        sound.counted, sound.data, sound.acks, ?_, sound.passed, sound.handed, sound.last⟩
      rintro _ ⟨⟩
      exact ⟨known, settled⟩

/-- What others say to the target changes nothing about the link. -/
theorem targetHears (sound : Sound ends before s link) (route : Link.Route)
    (address : Net.SocketAddress) (datagram : Text) :
    Sound ends before (s.act ends (.targetHears route address datagram)) link := by
  unfold Connection.act
  dsimp only
  split
  · exact sound
  · next foreign =>
      obtain ⟨last, held, origin⟩ := sound.last
      exact ⟨sound.sourceKnows, Endpoint.nodeAt?_receive sound.targetKnows, sound.found,
        sound.counted, sound.data, sound.acks, sound.acked, sound.passed, sound.handed,
        ⟨last, (Endpoint.last_receive foreign).trans held, origin⟩⟩

/-- What others say to the source changes nothing about the link. -/
theorem sourceHears (sound : Sound ends before s link) (route : Link.Route)
    (address : Net.SocketAddress) (datagram : Text) :
    Sound ends before (s.act ends (.sourceHears route address datagram)) link := by
  unfold Connection.act
  dsimp only
  split
  · exact sound
  · next foreign =>
      exact ⟨Endpoint.nodeAt?_receive sound.sourceKnows, sound.targetKnows,
        (Endpoint.link?_receive foreign).trans sound.found, sound.counted, sound.data, sound.acks,
        sound.acked, sound.passed, sound.handed, sound.last⟩

theorem act (sound : Sound ends before s link) (few : s.payloads.length < Link.tokenCount)
    (action : Action) : ∃ link', Sound ends before (s.act ends action) link' := by
  cases action with
  | offer text => exact sound.offer text
  | run => exact sound.run few
  | arrive route index => exact sound.arrive few route index
  | answer route index => exact sound.answer few route index
  | targetHears route address datagram => exact ⟨link, sound.targetHears route address datagram⟩
  | sourceHears route address datagram => exact ⟨link, sound.sourceHears route address datagram⟩
  | work source target =>
      exact ⟨link, sound.sourceKnows, sound.targetKnows, sound.found, sound.counted, sound.data,
        sound.acks, sound.acked, sound.passed, sound.handed, sound.last⟩

end Sound

theorem length_payloads_act (s : Connection) (action : Action) :
    s.payloads.length ≤ (s.act ends action).payloads.length := by
  cases action with
  | offer text =>
      unfold Connection.act
      dsimp only
      split
      · exact Nat.le_refl _
      · simp [payloads, List.filterMap_append]
  | _ =>
      unfold Connection.act
      dsimp only
      (try split) <;> exact Nat.le_refl _

theorem sound_runs {source target : Endpoint} {waiting : List Text}
    (fresh : Fresh ends before source target waiting) (actions : List Action)
    (few : ((start source target waiting).runs ends actions).payloads.length < Link.tokenCount) :
    ∃ link, Sound ends before ((start source target waiting).runs ends actions) link := by
  induction actions using List.reverseRecOn with
  | nil => exact sound_start fresh
  | append_singleton actions action ih =>
      rw [runs, List.foldl_append] at few ⊢
      have fewer := Nat.lt_of_le_of_lt (length_payloads_act _ action) few
      obtain ⟨link, sound⟩ := ih fewer
      exact sound.act fewer action

/-- A link loses nothing but perhaps its first payload.  As long as no token comes round again, each
payload that the link has passed was handed on at the other end, under its own token, and nothing
but payloads of the link is handed on; only the first one may have been taken for a repetition, if
its token was the last one accepted from an earlier time.  What is handed on is what the process
gets. -/
theorem passed_handed {source target : Endpoint} {waiting : List Text}
    (fresh : Fresh ends before source target waiting) (actions : List Action)
    (few : ((start source target waiting).runs ends actions).payloads.length < Link.tokenCount) :
    let s := (start source target waiting).runs ends actions
    ∃ link passed, s.source.links.link? ends.target = some link ∧
      s.payloads = passed ++ link.outstanding ∧ link.token = passed.length ∧
      (∀ i payload, passed[i]? = some payload →
        (i, payload) ∈ s.handed ∨ i = 0 ∧ before = some 0) ∧
      (∀ i payload, (i, payload) ∈ s.handed → s.payloads[i]? = some payload) ∧
      ∀ route datagram,
        (s.target.receive route ends.sourceAddress datagram).1.node =
          match s.target.hands? route ends.source datagram with
          | some (_, payload) => (s.target.node.onMessage ends.source (.ofString payload)).1
          | none => s.target.node := by
  intro s
  obtain ⟨link, sound⟩ := sound_runs fresh actions few
  obtain ⟨passed, whole, counted⟩ := sound.counted
  refine ⟨link, passed, sound.found, whole, counted, fun i payload named => ?_, sound.handed,
    fun route datagram => Endpoint.node_receive sound.targetKnows⟩
  have below : i < passed.length := (List.getElem?_eq_some_iff.mp named).1
  rcases sound.passed i (counted ▸ below) with ⟨other, given⟩ | first
  · left
    have same := sound.handed i other given
    rw [whole, List.getElem?_append_left below, named, Option.some.injEq] at same
    exact same ▸ given
  · exact .inr first

/-- Two processes on one host. -/
def pair : Ends :=
  { source := 0
    target := 1
    sourceAddress := { ip := .v4 127 0 0 1, port := 4000 }
    targetAddress := { ip := .v4 127 0 0 1, port := 4001 } }

def pairHosts : Net.Hosts :=
  { entries :=
      [ { node := 0, name := "localhost", ip := .v4 127 0 0 1, port := 4000 },
        { node := 1, name := "localhost", ip := .v4 127 0 0 1, port := 4001 } ] }

/-- The first process, started anew. -/
def restarted : Endpoint :=
  Endpoint.new (.new { me := 0, cluster := .new 2 0, switches := .none }) pairHosts
    { me := 0, peers := [{ peer := 1, address := pair.targetAddress, outbound := .new 4 }] }

/-- The second process, which has accepted one payload of the first one before. -/
def listening : Endpoint :=
  { Endpoint.new (.new { me := 1, cluster := .new 2 0, switches := .none }) pairHosts
      { me := 1, peers := [] } with
    inbound := { last := [some 0, none] } }

/-- Two payloads are sent, and both are acknowledged. -/
def exchange : List Action :=
  [ .offer (.ofString "a"), .offer (.ofString "b"), .run, .arrive .reachable 0,
    .answer .reachable 0, .run, .arrive .reachable 1, .answer .reachable 1, .run ]

/-- The link passes both payloads.  The first one is taken for a repetition, the second one is
handed on. -/
theorem second_payload_handed :
    Fresh pair (some 0) restarted listening [] ∧
      ((start restarted listening []).runs pair exchange).payloads.length < Link.tokenCount ∧
      (1, "b") ∈ ((start restarted listening []).runs pair exchange).handed ∧
      (0, "a") ∉ ((start restarted listening []).runs pair exchange).handed := by
  have fresh : Fresh pair (some 0) restarted listening [] :=
    ⟨by decide, by decide, by decide, ⟨.new 4, rfl, rfl, rfl, rfl, rfl⟩⟩
  have payloads : ((start restarted listening []).runs pair exchange).payloads = ["a", "b"] := by
    decide +kernel
  have token : (((start restarted listening []).runs pair exchange).source.links.link? 1).map
      Link.Outbound.token = some 2 := by
    decide +kernel
  have few : ((start restarted listening []).runs pair exchange).payloads.length <
      Link.tokenCount := by
    rw [payloads]
    decide
  obtain ⟨link, passed, found, whole, counted, handed, -⟩ := passed_handed fresh exchange few
  have two : passed.length = 2 := by
    rw [show (1 : Nat) = pair.target from rfl, found] at token
    exact counted.symm.trans (Option.some.inj token)
  have second : passed[1]? = some "b" := by
    rw [payloads] at whole
    rw [← List.getElem?_append_left (by omega), ← whole]
    rfl
  have given := (handed 1 "b" second).resolve_right fun first => absurd first.1 (by decide)
  exact ⟨fresh, few, given, by decide +kernel⟩

end Connection

end QuorumList
