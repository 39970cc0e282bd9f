import Mathlib.Data.List.Sort
import QuorumList.Message
import QuorumList.Proofs.Decoding
import QuorumList.Proofs.Utf8

/-!
Messages there and back.

The fields of a message are numbers of 64 bits, and a view travels as a signed number.  A value is
writable if its numbers fit.  What is writable is read back as it was written, and what is read is
writable.
-/
namespace QuorumList

open Json Json.Decoder

variable {room : Nat}

/-! ### Views and phases -/

/-- The view can be written as a signed number of 64 bits. -/
def View.Writable : View → Prop
  | .tee => True
  | .id node => node ≤ maxSigned

namespace View

theorem Writable.le {node : Nat} (fits : (View.id node).Writable) : node ≤ maxSigned :=
  fits

theorem Writable.toWire_eq {node : Nat} (fits : (View.id node).Writable) :
    (View.id node).toWire = node := by
  have small := fits.le
  simp only [maxSigned] at small
  rw [toWire, Int.bmod_eq_of_le] <;> simp only [maxUnsigned] <;> omega

theorem Writable.ofWire?_toWire {view : View} (fits : view.Writable) :
    ofWire? view.toWire = some view := by
  cases view with
  | tee => rfl
  | id node =>
      rw [fits.toWire_eq, ofWire?, if_neg (by omega), if_pos (by omega), Int.toNat_natCast]

theorem reads {view : View} (fits : view.Writable) : decoder.Reads room view.toJson view := by
  cases view with
  | tee => exact reads_refine (reads_integer (by decide) (by decide) (by decide)) rfl
  | id node =>
      have small := fits.le
      refine reads_refine (reads_integer ?_ ?_ ?_) fits.ofWire?_toWire
      all_goals
        rw [fits.toWire_eq]
        simp only [maxSigned, maxUnsigned] at small ⊢
        omega

theorem yields : decoder.Yields View.Writable := by
  refine yields_refine (yields_integer _ _) fun i view within named => ?_
  unfold ofWire? at named
  split at named
  · cases named
    trivial
  · split at named
    · cases named
      have below : i.toNat ≤ maxSigned := by omega
      exact below
    · contradiction

end View

theorem Phase.reads (phase : Phase) : decoder.Reads room phase.toJson phase := by
  cases phase <;> exact reads_refine (reads_naturalTo (by decide) (by decide)) rfl

/-! ### View pairs, stances and announcements -/

structure ViewPair.Writable (pair : ViewPair) : Prop where
  current : pair.current.Writable
  next : pair.next.Writable

namespace ViewPair

theorem reads {pair : ViewPair} (fits : pair.Writable) :
    decoder.Reads (room + 1) pair.toJson pair :=
  reads_record
    (.cons (Field.reads_make (View.reads fits.current) rfl)
      (.cons (Field.reads_make (View.reads fits.next) rfl) .nil))
    (by simp) rfl rfl

theorem yields : decoder.Yields ViewPair.Writable := by
  refine yields_record ?_ ⟨Nat.zero_le _, Nat.zero_le _⟩
  simp only [List.forall_mem_cons]
  exact ⟨Field.keeps_make View.yields fun _ fits _ rest => { rest with current := fits },
    Field.keeps_make View.yields fun _ fits _ rest => { rest with next := fits }, by simp⟩

end ViewPair

def Stance.Writable (stance : Stance) : Prop :=
  stance.pair.Writable

namespace Stance

theorem reads {stance : Stance} (fits : stance.Writable) :
    decoder.Reads (room + 2) stance.toJson stance :=
  reads_record
    (.cons (Field.reads_make (Phase.reads stance.phase) rfl)
      (.cons (Field.reads_make (ViewPair.reads fits) rfl) .nil))
    (by simp [members]) rfl rfl

theorem yields : decoder.Yields Stance.Writable := by
  refine yields_record ?_ ⟨Nat.zero_le _, Nat.zero_le _⟩
  simp only [List.forall_mem_cons]
  exact ⟨Field.keeps_any fun _ _ rest => rest,
    Field.keeps_make ViewPair.yields fun _ fits _ _ => fits, by simp⟩

end Stance

structure Announcement.Writable (a : Announcement) : Prop where
  stance : a.stance.Writable
  echo : a.echo.Writable

namespace Announcement

theorem reads {a : Announcement} (fits : a.Writable) : decoder.Reads (room + 3) a.toJson a :=
  reads_record
    (.cons (Field.reads_make (Stance.reads fits.echo) rfl)
      (.cons (Field.reads_make (Phase.reads a.stance.phase) rfl)
        (.cons (Field.reads_make (ViewPair.reads fits.stance) rfl) .nil)))
    (by simp [Stance.members]) rfl rfl

theorem yields : decoder.Yields Announcement.Writable := by
  have initial : Stance.initial.Writable := ⟨Nat.zero_le _, Nat.zero_le _⟩
  refine yields_record ?_ ⟨initial, initial⟩
  simp only [List.forall_mem_cons]
  exact ⟨Field.keeps_any fun _ _ rest => ⟨rest.stance, rest.echo⟩,
    Field.keeps_make ViewPair.yields fun _ fits _ rest => { rest with stance := fits },
    Field.keeps_make Stance.yields fun _ fits _ rest => { rest with echo := fits }, by simp⟩

end Announcement

/-! ### Requests -/

/-- The argument has 64 bits: a value with its sign, and an index without one. -/
def Operation.Writable : Operation → Prop
  | .append x | .prepend x => -(maxSigned : Int) - 1 ≤ x ∧ x ≤ maxSigned
  | .pop i => i ≤ maxUnsigned

theorem reads_signed {x : Int} (fits : -(maxSigned : Int) - 1 ≤ x ∧ x ≤ maxSigned) :
    signed.Reads room (.int x) x := by
  refine reads_integer fits.1 fits.2 ?_
  simp only [maxSigned, maxUnsigned] at fits ⊢
  omega

namespace Operation

theorem reads {operation : Operation} (fits : operation.Writable) :
    decoder.Reads (room + 1) operation.toJson operation := by
  cases operation with
  | append x => exact reads_paired (by decide) rfl (reads_map _ (reads_signed fits))
  | prepend x => exact reads_paired (by decide) rfl (reads_map _ (reads_signed fits))
  | pop i => exact reads_paired (by decide) rfl (reads_map _ (reads_unsigned fits))

theorem yields : decoder.Yields Operation.Writable := by
  refine yields_paired fun kind => ?_
  cases kind with
  | append => exact yields_map _ (yields_integer _ _) fun _ => id
  | prepend => exact yields_map _ (yields_integer _ _) fun _ => id
  | pop => exact yields_map _ yields_unsigned fun _ => id

end Operation

structure ClientRequest.Writable (q : ClientRequest) : Prop where
  client : q.client ≤ maxUnsigned
  timestamp : q.timestamp ≤ maxUnsigned
  operation : q.operation.Writable

namespace ClientRequest

theorem reads {q : ClientRequest} (fits : q.Writable) : decoder.Reads (room + 2) q.toJson q :=
  reads_record
    (.cons (Field.reads_make (reads_unsigned fits.client) rfl)
      (.cons (Field.reads_make (Operation.reads fits.operation) rfl)
        (.cons (Field.reads_make (reads_unsigned fits.timestamp) rfl) .nil)))
    (by simp) rfl rfl

theorem yields : decoder.Yields ClientRequest.Writable := by
  refine yields_record ?_ ⟨Nat.zero_le _, Nat.zero_le _, by decide, by decide⟩
  simp only [List.forall_mem_cons]
  exact ⟨Field.keeps_make yields_unsigned fun _ fits _ rest => { rest with client := fits },
    Field.keeps_make yields_unsigned fun _ fits _ rest => { rest with timestamp := fits },
    Field.keeps_make Operation.yields fun _ fits _ rest => { rest with operation := fits },
    by simp⟩

end ClientRequest

structure AssignedRequest.Writable (a : AssignedRequest) : Prop where
  request : a.request.Writable
  view : a.view.Writable
  seq : a.seq ≤ maxUnsigned

namespace AssignedRequest

theorem reads {a : AssignedRequest} (fits : a.Writable) : decoder.Reads (room + 3) a.toJson a :=
  reads_record
    (.cons (Field.reads_make (ClientRequest.reads fits.request) rfl)
      (.cons (Field.reads_make (reads_unsigned fits.seq) rfl)
        (.cons (Field.reads_make (View.reads fits.view) rfl) .nil)))
    (by simp) rfl rfl

theorem writable_default : (default : AssignedRequest).Writable :=
  ⟨⟨Nat.zero_le _, Nat.zero_le _, by decide, by decide⟩, trivial, Nat.zero_le _⟩

theorem yields : decoder.Yields AssignedRequest.Writable := by
  refine yields_record ?_ writable_default
  simp only [List.forall_mem_cons]
  exact ⟨Field.keeps_make ClientRequest.yields fun _ fits _ rest => { rest with request := fits },
    Field.keeps_make View.yields fun _ fits _ rest => { rest with view := fits },
    Field.keeps_make yields_unsigned fun _ fits _ rest => { rest with seq := fits }, by simp⟩

end AssignedRequest

/-! ### Sets -/

def NodeSet.Writable (s : NodeSet) : Prop :=
  ∀ k ∈ s.members, k ≤ maxUnsigned

namespace NodeSet

/-- A set is made of its members. -/
theorem ofList_members (s : NodeSet) : ofList s.members = s := by
  have same : (ofList s.members).members = s.members :=
    (ofList s.members).ascending.eq_of_mem_iff s.ascending fun _ => mem_ofList
  cases s
  exact NodeSet.mk.injEq .. ▸ same

theorem reads {s : NodeSet} (fits : s.Writable) : decoder.Reads (room + 1) s.toJson s := by
  have members : (Decoder.list unsigned).Reads (room + 1) s.toJson s.members :=
    reads_list fun k member => reads_unsigned (fits k member)
  exact ⟨members.settles, fun spell spells =>
    bind_eq_ok.mpr ⟨_, members.reads spell spells, congrArg _ (ofList_members s)⟩⟩

theorem yields : decoder.Yields NodeSet.Writable := by
  intro source s read
  obtain ⟨nodes, inner, whole⟩ := bind_eq_ok.mp read
  cases whole
  intro k member
  exact yields_list yields_unsigned source nodes inner k (mem_ofList.mp member)

end NodeSet

namespace StatusSet

theorem insert_toList (s : StatusSet) : s.toList.foldl insert empty = s := by
  obtain ⟨prePrep, prep, commit⟩ := s
  revert prePrep prep commit
  decide

theorem reads (s : StatusSet) : decoder.Reads (room + 1) s.toJson s := by
  have statuses : (Decoder.list Status.decoder).Reads (room + 1) s.toJson s.toList := by
    refine reads_list fun status _ => ?_
    cases status <;> exact reads_named rfl
  exact ⟨statuses.settles, fun spell spells =>
    bind_eq_ok.mpr ⟨_, statuses.reads spell spells, congrArg _ (insert_toList s)⟩⟩

end StatusSet

/-! ### Records -/

structure LogEntry.Writable (e : LogEntry) : Prop where
  request : e.request.Writable
  executedBy : e.executedBy.Writable

namespace LogEntry

theorem reads {e : LogEntry} (fits : e.Writable) : decoder.Reads (room + 4) e.toJson e :=
  reads_record
    (.cons (Field.reads_make (AssignedRequest.reads fits.request) rfl)
      (.cons (Field.reads_make (NodeSet.reads fits.executedBy) rfl) .nil))
    (by simp) rfl rfl

theorem yields : decoder.Yields LogEntry.Writable := by
  refine yields_record ?_
    ⟨AssignedRequest.writable_default, by simp [NodeSet.Writable, NodeSet.empty]⟩
  simp only [List.forall_mem_cons]
  exact ⟨Field.keeps_make AssignedRequest.yields fun _ fits _ rest => { rest with request := fits },
    Field.keeps_make NodeSet.yields fun _ fits _ rest => { rest with executedBy := fits },
    by simp⟩

end LogEntry

def QueueEntry.Writable (e : QueueEntry) : Prop :=
  e.request.Writable

namespace QueueEntry

theorem reads {e : QueueEntry} (fits : e.Writable) : decoder.Reads (room + 4) e.toJson e :=
  reads_record
    (.cons (Field.reads_make (AssignedRequest.reads fits) rfl)
      (.cons (Field.reads_make (StatusSet.reads e.status) rfl) .nil))
    (by simp) rfl rfl

theorem yields : decoder.Yields QueueEntry.Writable := by
  refine yields_record ?_ AssignedRequest.writable_default
  simp only [List.forall_mem_cons]
  exact ⟨Field.keeps_make AssignedRequest.yields fun _ fits _ _ => fits,
    Field.keeps_any fun _ _ rest => rest, by simp⟩

end QueueEntry

/-- The values of a list have 64 bits. -/
def WritableState (state : List Int) : Prop :=
  ∀ x ∈ state, -(maxSigned : Int) - 1 ≤ x ∧ x ≤ maxSigned

theorem reads_state {state : List Int} (fits : WritableState state) :
    (Decoder.list signed).Reads (room + 1) (.list .int state) state :=
  reads_list fun x member => reads_signed (fits x member)

structure LastReply.Writable (l : LastReply) : Prop where
  request : l.request.Writable
  reply : WritableState l.reply

namespace LastReply

theorem reads {l : LastReply} (fits : l.Writable) : decoder.Reads (room + 3) l.toJson l :=
  reads_record
    (.cons (Field.reads_make (reads_state fits.reply) rfl)
      (.cons (Field.reads_make (ClientRequest.reads fits.request) rfl) .nil))
    (by simp) rfl rfl

theorem yields : decoder.Yields LastReply.Writable := by
  refine yields_record ?_ ⟨AssignedRequest.writable_default.request, by simp [WritableState]⟩
  simp only [List.forall_mem_cons]
  exact ⟨Field.keeps_make ClientRequest.yields fun _ fits _ rest => { rest with request := fits },
    Field.keeps_make (yields_list (yields_integer _ _)) fun _ fits _ rest =>
      { rest with reply := fits },
    by simp⟩

end LastReply

structure Record.Writable (r : Record) : Prop where
  state : WritableState r.state
  log : ∀ e ∈ r.log, e.Writable
  pending : ∀ q ∈ r.pending, q.Writable
  queue : ∀ e ∈ r.queue, e.Writable
  replies : ∀ o ∈ r.replies, ∀ l ∈ o, l.Writable
  seq : r.seq ≤ maxUnsigned
  view : r.view.Writable

namespace Record

theorem reads {r : Record} (fits : r.Writable) : decoder.Reads (room + 6) r.toJson r := by
  refine reads_record
    (.cons (Field.reads_make (reads_bool r.conflict) rfl)
      (.cons (Field.reads_make (reads_list fun o member => reads_optional fun l held =>
          ⟨?_, LastReply.reads (fits.replies o member l held)⟩) rfl)
        (.cons (Field.reads_make (reads_list fun q member =>
            ClientRequest.reads (fits.pending q member)) rfl)
          (.cons (Field.reads_make (View.reads fits.view) rfl)
            (.cons (Field.reads_make (reads_list fun e member =>
                LogEntry.reads (fits.log e member)) rfl)
              (.cons (Field.reads_make (reads_state fits.state) rfl)
                (.cons (Field.reads_make (reads_list fun e member =>
                    QueueEntry.reads (fits.queue e member)) rfl)
                  (.cons (Field.reads_make (reads_unsigned fits.seq) rfl)
                    (.cons (Field.reads_make (reads_bool r.viewChanged) rfl) .nil)))))))))
    (by simp) rfl rfl
  exact fun null => nomatch null

theorem writable_blank : blank.Writable :=
  ⟨by simp [WritableState, blank], by simp [blank], by simp [blank], by simp [blank],
    by simp [blank], Nat.zero_le _, trivial⟩

theorem yields : decoder.Yields Record.Writable := by
  refine yields_record ?_ writable_blank
  simp only [List.forall_mem_cons]
  exact ⟨Field.keeps_make (yields_list (yields_integer _ _)) fun _ fits _ rest =>
      { rest with state := fits },
    Field.keeps_make (yields_list LogEntry.yields) fun _ fits _ rest => { rest with log := fits },
    Field.keeps_make (yields_list ClientRequest.yields) fun _ fits _ rest =>
      { rest with pending := fits },
    Field.keeps_make (yields_list QueueEntry.yields) fun _ fits _ rest =>
      { rest with queue := fits },
    Field.keeps_make (yields_list (yields_optional LastReply.yields)) fun _ fits _ rest =>
      { rest with replies := fits },
    Field.keeps_make yields_unsigned fun _ fits _ rest => { rest with seq := fits },
    Field.keeps_any fun _ _ rest => { rest with },
    Field.keeps_any fun _ _ rest => { rest with },
    Field.keeps_make View.yields fun _ fits _ rest => { rest with view := fits }, by simp⟩

end Record

/-! ### Opinions and suspicions -/

theorem Service.reads (service : Service) : decoder.Reads room service.toJson service := by
  cases service <;> exact reads_named rfl

structure Opinion.Writable (o : Opinion) : Prop where
  view : o.view.Writable
  seconded : o.seconded.Writable

namespace Opinion

theorem reads {o : Opinion} (fits : o.Writable) : decoder.Reads (room + 2) o.toJson o :=
  reads_record
    (.cons (Field.reads_make (reads_bool o.wantsChange) rfl)
      (.cons (Field.reads_make (NodeSet.reads fits.seconded) rfl)
        (.cons (Field.reads_make (View.reads fits.view) rfl)
          (.cons (Field.reads_make (Service.reads o.service) rfl) .nil))))
    (by simp) rfl rfl

theorem yields : decoder.Yields Opinion.Writable := by
  refine yields_record ?_ ⟨trivial, by simp [NodeSet.Writable, fresh, NodeSet.empty]⟩
  simp only [List.forall_mem_cons]
  exact ⟨Field.keeps_any fun _ _ rest => { rest with },
    Field.keeps_make View.yields fun _ fits _ rest => { rest with view := fits },
    Field.keeps_any fun _ _ rest => { rest with },
    Field.keeps_make NodeSet.yields fun _ fits _ rest => { rest with seconded := fits }, by simp⟩

end Opinion

def Suspicion.Writable (m : Suspicion) : Prop :=
  m.view.Writable

namespace Suspicion

theorem reads {m : Suspicion} (fits : m.Writable) : decoder.Reads (room + 1) m.toJson m :=
  reads_record
    (.cons (Field.reads_make (View.reads fits) rfl)
      (.cons (Field.reads_make (reads_bool m.suspected) rfl) .nil))
    (by simp) rfl rfl

theorem yields : decoder.Yields Suspicion.Writable := by
  refine yields_record ?_ trivial
  simp only [List.forall_mem_cons]
  exact ⟨Field.keeps_make View.yields fun _ fits _ _ => fits,
    Field.keeps_any fun _ _ rest => rest, by simp⟩

end Suspicion

/-! ### Messages -/

def Payload.Writable : Payload → Prop
  | .establishment a => a.Writable
  | .agreement r => r.Writable
  | .monitoring o => o.Writable
  | .detection m => m.Writable
  | .heartbeat => True

namespace Payload

theorem reads {payload : Payload} (fits : payload.Writable) :
    (decoder payload.kind).Reads (room + 6) payload.toJson payload := by
  cases payload with
  | establishment a => exact reads_map _ (Announcement.reads fits)
  | agreement r => exact reads_map _ (Record.reads fits)
  | monitoring o => exact reads_map _ (Opinion.reads fits)
  | detection m => exact reads_map _ (Suspicion.reads fits)
  | heartbeat => exact ⟨.null, fun _ _ => rfl⟩

theorem yields (kind : MessageKind) : (decoder kind).Yields Payload.Writable := by
  cases kind with
  | establishment => exact yields_map _ Announcement.yields fun _ => id
  | agreement => exact yields_map _ Record.yields fun _ => id
  | monitoring => exact yields_map _ Opinion.yields fun _ => id
  | detection => exact yields_map _ Suspicion.yields fun _ => id
  | heartbeat =>
      intro source payload read
      cases read
      trivial

end Payload

/-- All numbers of the message have 64 bits, and its views can be written with a sign. -/
structure Message.Writable (m : Message) : Prop where
  sender : m.sender ≤ maxUnsigned
  payload : m.payload.Writable

theorem MessageKind.ofCode?_code (kind : MessageKind) : ofCode? kind.code = some kind := by
  cases kind <;> rfl

namespace Message

theorem reads_envelope {m : Message} (fits : m.Writable) :
    Envelope.decoder.Reads maxNesting m.envelope
      { code := m.kind.code, sender := m.sender, data := m.payload.toJson.source .char } := by
  have payload : (Payload.decoder m.kind).Reads (120 + 6) m.payload.toJson m.payload :=
    Payload.reads fits.payload
  have code : signed.Reads (maxNesting - 1) (.int m.kind.code) m.kind.code := by
    refine reads_signed ?_
    cases m.kind <;> decide
  exact reads_record
    (.cons (Field.reads_make code rfl)
      (.cons (Field.reads_make (reads_unsigned fits.sender) rfl)
        (.cons (Field.reads_make (reads_generic payload.settles) rfl) .nil)))
    (by simp) rfl rfl

theorem decode_encode {m : Message} (fits : m.Writable) :
    decode (.ofString m.encode) = .ok { m with receiver := none } := by
  have payload : (Payload.decoder m.kind).Reads (120 + 6) m.payload.toJson m.payload :=
    Payload.reads fits.payload
  simp only [decode, encode, (reads_envelope fits).decode, MessageKind.ofCode?_code,
    payload.reads _ Piece.spells_char]
  rfl

theorem yields_envelope : Envelope.decoder.Yields fun e => e.sender ≤ maxUnsigned := by
  refine yields_record ?_ (Nat.zero_le _)
  simp only [List.forall_mem_cons]
  exact ⟨Field.keeps_any fun _ _ rest => rest,
    Field.keeps_make yields_unsigned fun _ fits _ _ => fits,
    Field.keeps_any fun _ _ rest => rest, by simp⟩

/-- Whatever is decoded is writable, and is for nobody in particular. -/
theorem writable_of_decode {text : Text} {m : Message} (read : decode text = .ok m) :
    m.Writable ∧ m.receiver = none := by
  unfold decode at read
  split at read
  · contradiction
  · next envelope found =>
      split at read
      · contradiction
      · next kind _ =>
          split at read
          · contradiction
          · next payload inner =>
              cases read
              exact ⟨⟨yields_envelope.decode found, Payload.yields kind _ payload inner⟩, rfl⟩

/-- The bytes of a message. -/
def bytes (m : Message) : List UInt8 :=
  Text.bytes m.encode

/-- Messages come back from their bytes, only without their receiver.  So messages for nobody in
particular have the same bytes only if they are the same, and writing a received message anew, in
whatever form it came, changes nothing any more. -/
theorem bytes_round_trip :
    (∀ m : Message, m.Writable → decode (.ofBytes m.bytes) = .ok { m with receiver := none }) ∧
    (∀ m m' : Message, m.Writable → m'.Writable → m.receiver = none → m'.receiver = none →
      m.bytes = m'.bytes → m = m') ∧
    (∀ received m, decode (.ofBytes received) = .ok m → decode (.ofBytes m.bytes) = .ok m) := by
  have back (m : Message) (fits : m.Writable) :
      decode (.ofBytes m.bytes) = .ok { m with receiver := none } := by
    rw [bytes, Text.ofBytes_bytes, decode_encode fits]
  have untargeted (m : Message) (receiver : m.receiver = none) :
      { m with receiver := none } = m := by
    cases m
    cases receiver
    rfl
  refine ⟨back, fun m m' fits fits' receiver receiver' same => ?_, fun received m read => ?_⟩
  · have first := back m fits
    rw [same, back m' fits', untargeted m receiver, untargeted m' receiver'] at first
    exact (Except.ok.inj first).symm
  · obtain ⟨fits, receiver⟩ := writable_of_decode read
    rw [back m fits, untargeted m receiver]

/-- A message with the largest and the smallest numbers. -/
def extremes : Message :=
  let q : ClientRequest :=
    { client := maxUnsigned, timestamp := maxUnsigned, operation := .pop maxUnsigned }
  let a : AssignedRequest := { request := q, view := .id maxSigned, seq := maxUnsigned }
  .targeted 2 3
    (.agreement
      { Record.blank with
        state := [-(maxSigned : Int) - 1, maxSigned]
        log := [{ request := a, executedBy := .ofList [maxUnsigned, 0] }]
        pending := [{ q with operation := .append (-(maxSigned : Int) - 1) }]
        queue := [{ request := { a with view := .tee }, status := .prepared }]
        replies := [none, some { request := q, reply := [maxSigned] }]
        seq := maxUnsigned })

theorem extremes_round_trip :
    extremes.Writable ∧
      decode (.ofBytes extremes.bytes) = .ok { extremes with receiver := none } := by
  have request : ∀ operation : Operation, operation.Writable →
      ({ client := maxUnsigned, timestamp := maxUnsigned, operation := operation } :
        ClientRequest).Writable :=
    fun _ fits => ⟨Nat.le_refl _, Nat.le_refl _, fits⟩
  have pop := request (.pop maxUnsigned) (Nat.le_refl _)
  have state : WritableState [-(maxSigned : Int) - 1, maxSigned] := by
    unfold WritableState
    decide
  have record : extremes.payload.Writable :=
    { state := state
      log := List.forall_mem_singleton.mpr
        { request := ⟨pop, Nat.le_refl _, Nat.le_refl _⟩
          executedBy := by
            unfold NodeSet.Writable
            decide }
      pending := List.forall_mem_singleton.mpr (request _ (state _ List.mem_cons_self))
      queue := List.forall_mem_singleton.mpr ⟨pop, trivial, Nat.le_refl _⟩
      replies := by
        simp only [List.forall_mem_cons]
        exact ⟨nofun, by rintro _ ⟨⟩; exact ⟨pop, fun x member => state x (by simp_all)⟩, by simp⟩
      seq := Nat.le_refl _
      view := trivial }
  have fits : extremes.Writable := ⟨by decide, record⟩
  exact ⟨fits, bytes_round_trip.1 extremes fits⟩

end Message

end QuorumList
