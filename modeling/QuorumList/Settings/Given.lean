import QuorumList.Net.Hosts
import QuorumList.Settings.Basic

/-!
Values that a settings source gives, before it is known what they are for.

Each setting says what it takes.  Truth values, numbers and texts go for each other as far as they
can: a truth value is the number one or zero and has a word as its text, and a text is taken for
what it spells.  A table goes for a misbehaviour if its one part has that name, and otherwise tables
and lists go for nothing.

Sources are laid over each other, and what a later one gives for a key counts; only tables grow
together.
-/
namespace QuorumList.Settings

/-- A value given for a key. -/
inductive Given where
  | flag (value : Bool)
  /-- An integer of 64 bits with a sign. -/
  | integer (value : Int)
  | double (value : Double)
  | text (value : String)
  | list
  /-- A table with parts of these names. -/
  | table (names : List String)
deriving DecidableEq, Repr

/-- A key and the value given for it. -/
structure Assignment where
  key : String
  given : Given
deriving DecidableEq, Repr

/-- The characters of a text in lower case, as far as they are letters of ASCII.  All keys and words
that text is compared with are written in those. -/
def lowered (s : String) : String :=
  String.ofList (s.toList.map Char.toLower)

/-- The words that a truth value takes. -/
def truthWords : List (String × Bool) :=
  [ ("1", true), ("true", true), ("on", true), ("yes", true),
    ("0", false), ("false", false), ("off", false), ("no", false) ]

namespace Given

/-- The truth value that is given: a number other than zero is true. -/
def flag? : Given → Option Bool
  | .flag b => some b
  | .integer i => some (i ≠ 0)
  | .double d => some !d.isZero
  | .text s => truthWords.lookup (lowered s)
  | .list | .table _ => none

/-- The natural number of 64 bits that is given, in digits or as a truth value; a double is rounded
and cut. -/
def unsigned? : Given → Option Nat
  | .flag b => some b.toNat
  | .integer i => if 0 ≤ i then some i.toNat else none
  | .double d => some (d.toNatural Json.maxUnsigned)
  | .text s =>
      match truthWords.lookup (lowered s) with
      | some b => some b.toNat
      | none => Net.unsigned? Json.maxUnsigned s.toList
  | .list | .table _ => none

/-- The natural number that is given, if it is `largest` at most. -/
def natural? (largest : Nat) (given : Given) : Option Nat :=
  given.unsigned?.filter fun n => n ≤ largest

/-- The text that is given. -/
def text? : Given → Option String
  | .flag b => some (if b then "true" else "false")
  | .integer i => some (String.ofList (Json.decimal i))
  | .double d => some (String.ofList d.render)
  | .text s => some s
  | .list | .table _ => none

/-- The misbehaviour whose name is given. -/
def misbehaviour? : Given → Option Misbehaviour
  | .text s => Misbehaviour.names.lookup s
  | .table [name] => Misbehaviour.names.lookup name
  | _ => none

/-- What is there when a value is laid over another: tables grow together, and otherwise the later
value takes the place of the earlier one. -/
def laidOn : (later earlier : Given) → Given
  | .table names, .table there => .table (there ++ names.filter fun name => name ∉ there)
  | later, _ => later

end Given

/-- A key that a source may set, and what a value given for it makes of settings. -/
structure Key where
  name : String
  set? : Given → Option (Settings → Settings)

/-- A key that takes values of one kind. -/
def Key.make {α : Type} (name : String) (read? : Given → Option α)
    (put : α → Settings → Settings) : Key :=
  { name := name
    set? := fun given => (read? given).map put }

/-- The keys that a source may set; all other keys say nothing. -/
def keys : List Key :=
  let number := Given.natural? Json.maxUnsigned
  [ .make "id" number fun v s => { s with id := v },
    .make "api_port" (Given.natural? maxPort) fun v s => { s with apiPort := v },
    .make "hosts_path" Given.text? fun v s => { s with hostsPath := v },
    .make "number_of_nodes" number fun v s => { s with size := v },
    .make "number_of_byzantine" number fun v s => { s with faults := v },
    .make "run_sleep" number fun v s => { s with runSleep := some v },
    .make "integration_test" Given.flag? fun v s => { s with integrationTest := v },
    .make "force_view" number fun v s => { s with forceView := some v },
    .make "allow_service" Given.flag? fun v s => { s with allowService := v },
    .make "force_no_view_change" Given.flag? fun v s => { s with forceNoViewChange := v },
    .make "byzantine" Given.flag? fun v s => { s with byzantine := v },
    .make "byzantine_behavior" Given.misbehaviour? fun v s => { s with misbehaviour := some v },
    .make "non_self_stab" Given.flag? fun v s => { s with nonSelfStab := v },
    .make "sigma" number fun v s => { s with sigma := v },
    .make "number_of_clients" number fun v s => { s with clients := v },
    .make "fd_threshold" number fun v s => { s with threshold := v },
    .make "max_queue_size" number fun v s => { s with queueSize := v },
    .make "max_seq_num" number fun v s => { s with maxSeq := v },
    .make "start_state" Given.text? fun v s => { s with startState := some v },
    .make "resend_interval_ms" number fun v s => { s with resendInterval := v } ]

/-- What a list of assignments gives for a key, each laid over those before it. -/
def given? (name : String) (assignments : List Assignment) : Option Given :=
  assignments.foldl
    (fun there a =>
      if a.key = name then
        some (match there with
          | none => a.given
          | some earlier => a.given.laidOn earlier)
      else there)
    none

/-- Let a list of assignments set one key; a value of the wrong kind is refused. -/
def setKey (assignments : List Assignment) (s : Settings) (key : Key) : Option Settings :=
  match given? key.name assignments with
  | none => some s
  | some given => (key.set? given).map fun set => set s

/-- The settings that a list of assignments describes. -/
def ofAssignments? (assignments : List Assignment) : Option Settings :=
  keys.foldlM (setKey assignments) standard

end QuorumList.Settings
