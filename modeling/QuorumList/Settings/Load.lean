import QuorumList.Settings.File
import QuorumList.Settings.Path

/-!
Settings from their sources.

Settings are made from the defaults, a settings file and the environment, each of which overrides
those before it.  A source sets the keys that it names; a name that is a path into the value of a
key sets a part of that value.  In the environment the names are in lower case whatever case they
are written in, and the look of a value says what kind it is.
-/
namespace QuorumList.Settings

/-- What the value of an environment variable gives: a truth value in any case, a number, or its
text. -/
def ofVariable (value : String) : Given :=
  match lowered value with
  | "true" => .flag true
  | "false" => .flag false
  | _ =>
      match (integer? value.toList).filter isShort, double? value.toList with
      | some i, _ => .integer i
      | none, some d => .double d
      | none, none => .text value

/-- What a source assigns that gives a value under a name; a name that is a path assigns a value
with parts. -/
def assignmentTo (name : String) (given : Given) : Assignment :=
  match Path.split? name.toList with
  | some (key, .part part) => { key := String.ofList key, given := .table [part] }
  | some (key, .item) => { key := String.ofList key, given := .list }
  | none => { key := name, given := given }

/-- The assignments of an environment. -/
def environmentAssignments (environment : List (String × String)) : List Assignment :=
  environment.map fun (name, value) => assignmentTo (lowered name) (ofVariable value)

/-- The settings file, as far as there is one. -/
inductive SettingsFile where
  | absent
  /-- A file was asked for and could not be read. -/
  | unreadable
  | content (text : String)
deriving DecidableEq, Repr

/-- The assignments of a settings file. -/
def SettingsFile.assignments? : SettingsFile → Option (List Assignment)
  | .absent => some []
  | .unreadable => none
  | .content text =>
      (File.entries? text).map fun entries =>
        entries.map fun (name, given) => assignmentTo name given

/-- Why no settings could be made. -/
inductive LoadError where
  /-- A source is missing or faulty, or a value is of the wrong kind. -/
  | unmergeable
  | invalid (reason : InvalidSettings)
deriving DecidableEq, Repr

/-- Make settings from a file and an environment, and check them. -/
def load (file : SettingsFile) (environment : List (String × String)) :
    Except LoadError Settings := do
  let merged := do
    let given ← file.assignments?
    ofAssignments? (given ++ environmentAssignments environment)
  match merged with
  | none => throw .unmergeable
  | some settings =>
      match settings.validate with
      | .error reason => throw (.invalid reason)
      | .ok () => pure settings

end QuorumList.Settings
