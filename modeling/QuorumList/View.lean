import QuorumList.Json.Decoder
import QuorumList.Json.Value

/-!
Views, view pairs and phases.

A view names the process that is the primary, or is undefined (`tee`).  While processes establish a
view they declare a pair: the view they are in and the one they move to.  In the steady phase both
are equal, or the pair is the reset pair from which establishment starts over; in the change phase
they differ.  On the wire a view is its number, with `-1` for the undefined view, and a phase is `0`
or `1`.
-/
namespace QuorumList

/-- A process of the cluster, by its position. -/
abbrev NodeId := Nat

/-- A client, by its position. -/
abbrev ClientId := Nat

/-- A view: undefined, or the process that is the primary. -/
inductive View where
  | tee
  | id (node : NodeId)
deriving DecidableEq, Repr, Inhabited

namespace View

/-- The view that holds until another one is established. -/
def initial : View :=
  .id 0

/-- The view is undefined. -/
def isTee : View → Bool
  | .tee => true
  | .id _ => false

/-- The primary, in a defined view. -/
def node? : View → Option NodeId
  | .tee => none
  | .id node => some node

/-- The view is undefined or names one of `n` processes. -/
def inRange (n : Nat) : View → Bool
  | .tee => true
  | .id node => decide (node < n)

/-- The next view, around the ring of `n` processes; the undefined view is followed by the initial
one. -/
def successor (n : Nat) : View → View
  | .tee => initial
  | .id node => .id ((node + 1) % max n 1)

/-- The word for an undefined view, or the number of the primary. -/
def display : View → String
  | .tee => "TEE"
  | .id node => toString node

/-- The number on the wire: `-1` for the undefined view, and otherwise the primary as a signed
number of 64 bits. -/
def toWire : View → Int
  | .tee => -1
  | .id node => Int.bmod node (Json.maxUnsigned + 1)

/-- The view with a number on the wire; below `-1` there is none. -/
def ofWire? (value : Int) : Option View :=
  if value = -1 then some .tee
  else if 0 ≤ value then some (.id value.toNat)
  else none

/-- A view as a JSON value. -/
def toJson (view : View) : Json :=
  .int view.toWire

/-- A view from a JSON value. -/
def decoder : Json.Decoder View :=
  Json.Decoder.signed.refine ofWire?

end View

/-- The phase of view establishment: `steady`, or `change` while a view change is under way. -/
inductive Phase where
  | steady
  | change
deriving DecidableEq, Repr, Inhabited

namespace Phase

/-- The other phase. -/
def flip : Phase → Phase
  | .steady => .change
  | .change => .steady

/-- The number on the wire. -/
def toWire : Phase → Nat
  | .steady => 0
  | .change => 1

/-- The phase with a number on the wire. -/
def ofWire? : Nat → Option Phase
  | 0 => some .steady
  | 1 => some .change
  | _ => none

/-- A phase as a JSON value. -/
def toJson (phase : Phase) : Json :=
  .nat phase.toWire

/-- A phase from a JSON value. -/
def decoder : Json.Decoder Phase :=
  (Json.Decoder.naturalTo 255).refine ofWire?

end Phase

/-- A number that names no view or no phase. -/
inductive WireError where
  | view (value : Int)
  | phase (value : Nat)
deriving DecidableEq, Repr

namespace WireError

/-- The text of the error. -/
def message : WireError → String
  | .view value => s!"invalid view value {value}"
  | .phase value => s!"invalid phase {value}"

end WireError

/-- The view with a number on the wire, or the error of a number below `-1`. -/
def View.ofWire (value : Int) : Except WireError View :=
  match View.ofWire? value with
  | some view => .ok view
  | none => .error (.view value)

/-- The phase with a number on the wire, or the error of a number above `1`. -/
def Phase.ofWire (value : Nat) : Except WireError Phase :=
  match Phase.ofWire? value with
  | some phase => .ok phase
  | none => .error (.phase value)

/-- The view a process is in and the view it moves to. -/
structure ViewPair where
  current : View
  next : View
deriving DecidableEq, Repr, Inhabited

namespace ViewPair

/-- The pair from which establishment starts over. -/
def reset : ViewPair :=
  { current := .tee, next := View.initial }

/-- The pair of a process that stays in a view. -/
def steady (view : View) : ViewPair :=
  { current := view, next := view }

/-- The pair of a fresh process: steady in the initial view. -/
def initial : ViewPair :=
  steady View.initial

/-- The pair is the reset pair. -/
def isReset (pair : ViewPair) : Bool :=
  pair = reset

/-- The next view is defined, and both views are in range. -/
def typeCheck (n : Nat) (pair : ViewPair) : Bool :=
  !pair.next.isTee && pair.current.inRange n && pair.next.inRange n

/-- The pair may be held in the steady phase. -/
def legitSteady (n : Nat) (pair : ViewPair) : Bool :=
  (pair.current = pair.next || pair.isReset) && pair.typeCheck n

/-- The pair may be held in the change phase. -/
def legitChange (n : Nat) (pair : ViewPair) : Bool :=
  pair.current ≠ pair.next && pair.typeCheck n

/-- The pair may be held in a phase. -/
def legitIn (phase : Phase) (n : Nat) (pair : ViewPair) : Bool :=
  match phase with
  | .steady => pair.legitSteady n
  | .change => pair.legitChange n

/-- Both views between parentheses. -/
def display (pair : ViewPair) : String :=
  s!"({pair.current.display}, {pair.next.display})"

/-- A pair as a JSON value. -/
def toJson (pair : ViewPair) : Json :=
  .object [("current", pair.current.toJson), ("next", pair.next.toJson)]

/-- A pair from a JSON value. -/
def decoder : Json.Decoder ViewPair :=
  .record
    [ .make "current" .required View.decoder fun v p => { p with current := v },
      .make "next" .required View.decoder fun v p => { p with next := v } ]
    initial

end ViewPair

end QuorumList
