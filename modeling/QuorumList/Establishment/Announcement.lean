import QuorumList.Cluster

/-!
What processes tell each other while they establish a view.

A stance is a phase together with a pair.  Every round a process announces its stance to each other
process, and echoes the stance in which it last saw the receiver.  An echo of the present stance
makes the sender a witness of it.
-/
namespace QuorumList

/-- A phase and a pair, as held by one process and seen by another. -/
structure Stance where
  phase : Phase
  pair : ViewPair
deriving DecidableEq, Repr, Inhabited

namespace Stance

/-- The stance of a fresh process. -/
def initial : Stance :=
  { phase := .steady, pair := .initial }

/-- The stance from which establishment starts over. -/
def reset : Stance :=
  { phase := .steady, pair := .reset }

/-- The pair may be held in the phase. -/
def legit (n : Nat) (stance : Stance) : Bool :=
  stance.pair.legitIn stance.phase n

/-- The fields of a stance in a JSON value. -/
def members (stance : Stance) : List (String × Json) :=
  [("phase", stance.phase.toJson), ("view_pair", stance.pair.toJson)]

/-- A stance as a JSON value. -/
def toJson (stance : Stance) : Json :=
  .object stance.members

/-- A stance from a JSON value. -/
def decoder : Json.Decoder Stance :=
  .record
    [ .make "phase" .required Phase.decoder fun p s => { s with phase := p },
      .make "view_pair" .required ViewPair.decoder fun v s => { s with pair := v } ]
    initial

end Stance

/-- The message of a process to another one: its own stance, and the stance in which it last saw the
receiver. -/
structure Announcement where
  stance : Stance
  echo : Stance
deriving DecidableEq, Repr, Inhabited

namespace Announcement

/-- The announced stance is legitimate. -/
def valid (n : Nat) (a : Announcement) : Bool :=
  a.stance.legit n

/-- An announcement as a JSON value. -/
def toJson (a : Announcement) : Json :=
  .object (("echo", a.echo.toJson) :: a.stance.members)

/-- An announcement from a JSON value. -/
def decoder : Json.Decoder Announcement :=
  .record
    [ .make "phase" .required Phase.decoder fun p a => { a with stance.phase := p },
      .make "view_pair" .required ViewPair.decoder fun v a => { a with stance.pair := v },
      .make "echo" .required Stance.decoder fun e a => { a with echo := e } ]
    { stance := .initial, echo := .initial }

/-- What a misbehaving process sends to `receiver` in place of an announcement. -/
def tampered (n : Nat) (receiver : NodeId) (a : Announcement) :
    Option Misbehaviour → Announcement
  | some .differentViews =>
      if Misbehaviour.inLowerHalf n receiver then a
      else
        { a with
          stance := { phase := .steady, pair := .steady (a.stance.pair.current.successor n) } }
  | some .forcingReset => { a with stance := .reset }
  | _ => a

end Announcement

end QuorumList
