import QuorumList.Establishment.Announcement

/-!
The automaton that selects what a process does next about its view.

A process keeps the stance in which it last saw each process, its own at its own place.

```text
            next view / adopt
  steady ────────────────────► change
  (v, v)                      (v, v+1)
    ▲                            │
    └──────── establish ─────────┘
              (v+1, v+1)
```

Support for the stance of a process comes from those who hold the same pair in the same phase and
from those in the other phase whose pair either has not moved past the reference view (`remain`) or
is one step ahead of it (`follow`).  The first of four cases that applies is selected: a pair that
enough processes follow is adopted; a wish for a change, or a change that enough processes are
through with, advances; enough support lets a process stay; and otherwise it resets.
-/
namespace QuorumList

/-- The state of view establishment: the stance in which each process was last seen, the echo each
process sent last, and the wish for a view change. -/
structure Establishment where
  pairs : List ViewPair
  phases : List Phase
  echoes : List (Option Stance)
  changeWanted : Bool
deriving DecidableEq, Repr, Inhabited

namespace Establishment

/-- The pair in which a process was last seen. -/
def pairOf (s : Establishment) (k : NodeId) : ViewPair :=
  s.pairs.getD k .initial

/-- The phase in which a process was last seen. -/
def phaseOf (s : Establishment) (k : NodeId) : Phase :=
  s.phases.getD k .steady

/-- The stance in which a process was last seen. -/
def stanceOf (s : Establishment) (k : NodeId) : Stance :=
  { phase := s.phaseOf k, pair := s.pairOf k }

/-- The own stance of this process. -/
def own (site : Site) (s : Establishment) : Stance :=
  s.stanceOf site.me

/-- The last echo of a process. -/
def echoOf (s : Establishment) (k : NodeId) : Option Stance :=
  s.echoes.getD k none

/-- The stance of a process is not legitimate. -/
def stale (site : Site) (s : Establishment) (k : NodeId) : Bool :=
  !(s.stanceOf k).legit site.cluster.size

/-- The process is a witness: it is this one, or it echoed our present stance. -/
def witness (site : Site) (s : Establishment) (k : NodeId) : Bool :=
  k = site.me || s.echoOf k = some (s.own site)

/-- An establishing quorum witnesses our present stance. -/
def witnessed (site : Site) (s : Establishment) : Bool :=
  site.cluster.establishQuorum ≤ site.cluster.nodes.countP (s.witness site)

/-- How the pair of a process in the other phase relates to a reference pair. -/
inductive Mode where
  | remain
  | follow
deriving DecidableEq, Repr

/-- Process `k` is seen in the pair of `j`, and its stance is legitimate. -/
def samePair (site : Site) (s : Establishment) (j k : NodeId) : Bool :=
  s.pairOf k = s.pairOf j && !s.stale site k

/-- Process `k` is seen in the pair of `j` and in a given phase, and its stance is legitimate. -/
def sameStance (site : Site) (s : Establishment) (j : NodeId) (phase : Phase) (k : NodeId) : Bool :=
  s.samePair site j k && s.phaseOf k = phase

/-- A pair relates to a reference pair as the mode requires. -/
def relates (n : Nat) (reference : ViewPair) (phase : Phase) (mode : Mode) (pair : ViewPair) :
    Bool :=
  match mode, phase with
  | .remain, _ => pair.next = reference.current
  | .follow, .steady => pair.next = reference.current.successor n
  | .follow, .change => pair.current = reference.next

/-- Process `k` is in the other phase with a legitimate stance, and its pair relates to that of
`j`. -/
def inTransit (site : Site) (s : Establishment) (j : NodeId) (phase : Phase) (mode : Mode)
    (k : NodeId) : Bool :=
  s.phaseOf k ≠ phase && !s.stale site k &&
    relates site.cluster.size (s.pairOf j) phase mode (s.pairOf k)

/-- An adopting quorum supports the stance of `j`. -/
def adoptable (site : Site) (s : Establishment) (j : NodeId) (phase : Phase) (mode : Mode) : Bool :=
  site.cluster.adoptQuorum ≤
    site.cluster.nodes.countP fun k =>
      s.sameStance site j phase k || s.inTransit site j phase mode k

/-- An establishing quorum supports our own stance. -/
def establishable (site : Site) (s : Establishment) (phase : Phase) (mode : Mode) : Bool :=
  site.cluster.establishQuorum ≤
    site.cluster.nodes.countP (s.sameStance site site.me phase) +
      site.cluster.nodes.countP (s.inTransit site site.me phase mode)

/-- What a process does next. -/
inductive Case where
  /-- Adopt the pair of another process. -/
  | adopt (k : NodeId)
  /-- Move to the next view, or establish it. -/
  | advance
  /-- Do nothing. -/
  | stay
  /-- Start over. -/
  | reset
deriving DecidableEq, Repr

/-- The first other process with a different pair that may be adopted in the steady phase. -/
def followedSteady (site : Site) (s : Establishment) : Option NodeId :=
  site.others.find? fun k =>
    s.pairOf k ≠ (s.own site).pair && s.adoptable site k .steady .follow

/-- The first other process on its way to a different view that may be adopted in the change
phase. -/
def followedChange (site : Site) (s : Establishment) : Option NodeId :=
  site.others.find? fun k =>
    (s.pairOf k).next ≠ (s.own site).pair.next && s.adoptable site k .change .follow

/-- The case of a process in the steady phase. -/
def selectSteady (site : Site) (s : Establishment) : Case :=
  match s.followedSteady site with
  | some k => .adopt k
  | none =>
      if s.changeWanted && s.establishable site .steady .follow || (s.own site).pair.isReset then
        .advance
      else if s.adoptable site site.me .steady .remain then .stay
      else .reset

/-- The case of a process in the change phase. -/
def selectChange (site : Site) (s : Establishment) : Case :=
  match s.followedChange site with
  | some k => .adopt k
  | none =>
      if s.establishable site .change .follow then .advance
      else if s.adoptable site site.me .change .remain then .stay
      else .reset

/-- The case of this process. -/
def select (site : Site) (s : Establishment) : Case :=
  match (s.own site).phase with
  | .steady => s.selectSteady site
  | .change => s.selectChange site

/-- The pair of a process that adopts `target`: it keeps its view and moves to the next view of the
target.  If that is the view it is in, it takes the target as it is. -/
def adoptedPair (mine target : ViewPair) : ViewPair :=
  let moved : ViewPair := { current := mine.current, next := target.next }
  if moved.current = moved.next then target else moved

/-- The phase in which a pair is legitimate, the change phase first. -/
def phaseFor (n : Nat) (pair : ViewPair) : Phase :=
  if pair.legitChange n then .change else .steady

end Establishment

end QuorumList
