import QuorumList.Node.Basic

/-!
Start states: arbitrary states in which processes begin.

A start state is a JSON object.  Its keys are process numbers, written as plain unsigned integers,
and its values hold the states of components; of two entries for one process the last counts.
Everything that is left out stays as it is in a fresh process.
-/
namespace QuorumList

/-- The states of the components of one process, as far as they are given. -/
structure StartEntry where
  establishment : Option Establishment.Snapshot
  agreement : Option Agreement
  monitoring : Option Monitoring.Snapshot
  detection : Option Detection.Snapshot
deriving Repr

namespace StartEntry

/-- The entry that gives nothing. -/
def empty : StartEntry :=
  { establishment := none, agreement := none, monitoring := none, detection := none }

/-- An entry as a JSON value. -/
def toJson (e : StartEntry) : Json :=
  .object
    [ (Component.detection.key, .optional Detection.Snapshot.toJson e.detection),
      (Component.monitoring.key, .optional Monitoring.Snapshot.toJson e.monitoring),
      (Component.agreement.key, .optional Agreement.toJson e.agreement),
      (Component.establishment.key, .optional Establishment.Snapshot.toJson e.establishment) ]

/-- An entry from a JSON value. -/
def decoder : Json.Decoder StartEntry :=
  .record
    [ .make Component.establishment.key .optional (.optional Establishment.Snapshot.decoder)
        fun s e => { e with establishment := s },
      .make Component.agreement.key .optional (.optional Agreement.decoder)
        fun s e => { e with agreement := s },
      .make Component.monitoring.key .optional (.optional Monitoring.Snapshot.decoder)
        fun s e => { e with monitoring := s },
      .make Component.detection.key .optional (.optional Detection.Snapshot.decoder)
        fun s e => { e with detection := s } ]
    empty

end StartEntry

/-- The entries of a start state. -/
structure StartState where
  entries : List (NodeId × StartEntry)
deriving Repr

namespace StartState

/-- The start state that leaves every process fresh. -/
def empty : StartState :=
  { entries := [] }

/-- Set the entry of a process. -/
def put (node : NodeId) (entry : StartEntry) (s : StartState) : StartState :=
  { entries := s.entries.filter (fun e => e.1 ≠ node) ++ [(node, entry)] }

/-- The entry of a process. -/
def entryOf (s : StartState) (node : NodeId) : Option StartEntry :=
  s.entries.lookup node

/-- The process that a key names: digits without an escape, without a needless zero in front, and at
most 64 bits. -/
def nodeOfKey? (pieces : List Json.Piece) : Option NodeId := do
  let digits ← pieces.mapM fun
    | .char c => if c.isDigit then some c else none
    | _ => none
  let n := Json.Numeral.accumulate 0 digits
  if (digits = ['0'] ∨ (digits ≠ [] ∧ digits.head? ≠ some '0')) ∧ n ≤ Json.maxUnsigned then
    some n
  else none

/-- Read the members of a start state behind those already read. -/
def readMembers : List Json.Member → StartState → Except Json.Fault StartState
  | [], s => .ok s
  | (none, _) :: _, _ => .error .malformed
  | (some key, value) :: rest, s =>
      match nodeOfKey? key with
      | none => .error .malformed
      | some node => do
          let entry ← StartEntry.decoder value
          readMembers rest (s.put node entry)

/-- A start state from a JSON value. -/
def decoder : Json.Decoder StartState
  | .object members => readMembers members empty
  | s => .error s.misfit

/-- A start state as a JSON value, its keys in alphabetical order. -/
def toJson (s : StartState) : Json :=
  .object
    ((s.entries.map fun (node, entry) => (toString node, entry.toJson)).mergeSort
      fun a b => a.1 ≤ b.1)

end StartState

/-- Why a start state cannot be used. -/
inductive StartStateError where
  /-- The file cannot be read. -/
  | unreadable
  /-- The text is no start state. -/
  | malformed
  /-- The entry of a process does not fit the cluster. -/
  | invalid (node : NodeId) (reason : SizeMismatch)
deriving DecidableEq, Repr

namespace StartStateError

/-- The text of the error. -/
def message : StartStateError → String
  | .unreadable => "failed to read start state"
  | .malformed => "failed to parse start state"
  | .invalid node reason => s!"start state for node {node}: {reason.message}"

end StartStateError

namespace StartState

/-- Read a text as a start state. -/
def parse (text : Text) : Except StartStateError StartState :=
  match (Json.Document.ofText text).decode decoder with
  | .ok s => .ok s
  | .error _ => .error .malformed

/-- Take over the given states of the installed components. -/
def injectInto (entry : StartEntry) (node : Node) : Except SizeMismatch Node := do
  let site := node.site
  let establishment ←
    match node.establishment, entry.establishment with
    | some e, some given => some <$> e.inject site given
    | e, _ => pure e
  let agreement ←
    match node.agreement, entry.agreement with
    | some a, some given => some <$> a.inject site given
    | a, _ => pure a
  let monitoring ←
    match node.monitoring, entry.monitoring with
    | some m, some given => some <$> m.inject site given
    | m, _ => pure m
  let detection ←
    match node.detection, entry.detection with
    | some d, some given => some <$> d.inject site given
    | d, _ => pure d
  pure
    { node with
      establishment := establishment
      agreement := agreement
      monitoring := monitoring
      detection := detection }

/-- Put a process into its state of the start state, if there is one. -/
def apply (s : StartState) (node : Node) : Except StartStateError Node :=
  match s.entryOf node.site.me with
  | none => .ok node
  | some entry =>
      match injectInto entry node with
      | .ok node => .ok node
      | .error reason => .error (.invalid node.site.me reason)

end StartState

end QuorumList
