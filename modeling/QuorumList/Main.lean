import QuorumList.Deployment

/-!
The command line: put a process together and show the state in which it begins.

`--config FILE` names the settings file, which is `bftlist.toml` otherwise if there is one, and
`--start-state FILE` names the start state, whatever the settings say.
-/
namespace QuorumList.CommandLine

/-- What the command line asks for. -/
structure Options where
  config : Option String
  startState : Option String

/-- Read the arguments behind those already read. -/
def Options.read : List String → Options → Option Options
  | [], options => some options
  | "--config" :: path :: rest, options => read rest { options with config := some path }
  | "-c" :: path :: rest, options => read rest { options with config := some path }
  | "--start-state" :: path :: rest, options => read rest { options with startState := some path }
  | "-s" :: path :: rest, options => read rest { options with startState := some path }
  | _, _ => none

/-- The text of a file, if it can be read. -/
def readText? (path : String) : IO (Option String) := do
  try
    let text ← IO.FS.readFile path
    pure (some text)
  catch _ => pure none

/-- The settings file that the options ask for. -/
def settingsFile (options : Options) : IO Settings.SettingsFile := do
  match options.config with
  | some path =>
      match ← readText? path with
      | some text => pure (.content text)
      | none => pure .unreadable
  | none =>
      match ← readText? "bftlist.toml" with
      | some text => pure (.content text)
      | none => pure .absent

/-- The variables of the environment that set something. -/
def environment : IO (List (String × String)) := do
  let found ← Settings.keys.mapM fun key => do
    let name := key.name.toUpper
    let value ← IO.getEnv name
    pure (value.map fun v => (name, v))
  pure (found.filterMap id)

/-- Work that may end with a text that says what is wrong. -/
abbrev Attempt := ExceptT String IO

/-- Go on with a result, or end with the text of its error. -/
def attempt {ε α : Type} (message : ε → String) (result : Except ε α) : Attempt α :=
  match result with
  | .ok a => pure a
  | .error e => throw (message e)

/-- Why no settings could be made. -/
def loadFailure : Settings.LoadError → String
  | .unmergeable => "failed to load configuration"
  | .invalid reason => reason.message

/-- The hosts file that settings name. -/
def hosts (settings : Settings) : Attempt Net.Hosts := do
  match ← readText? settings.hostsPath with
  | some text => attempt Net.HostsError.message (Net.Hosts.parse text)
  | none => throw s!"Failed to read hosts file at {settings.hostsPath}"

/-- The start state that settings name. -/
def startState (settings : Settings) : Attempt (Option StartState) := do
  match settings.startState with
  | none => pure none
  | some path =>
      let failure (e : StartStateError) : String :=
        s!"Malformed start state at {path}: {e.message}"
      match ← readText? path with
      | some text => some <$> attempt failure (StartState.parse (.ofString text))
      | none => throw (failure .unreadable)

/-- The process that the options describe. -/
def endpoint (options : Options) : Attempt Endpoint := do
  let loaded ← attempt loadFailure (Settings.load (← settingsFile options) (← environment))
  let settings := { loaded with startState := options.startState.or loaded.startState }
  let hosts ← hosts settings
  attempt InvalidSettings.message (settings.validateHosts hosts)
  let start ← startState settings
  attempt AssemblyError.message (settings.assemble hosts start)

/-- Read the arguments, put a process together and show its state. -/
def showState (arguments : List String) : Attempt Unit := do
  match Options.read arguments { config := none, startState := none } with
  | none => throw "usage: [--config FILE] [--start-state FILE]"
  | some options =>
      let endpoint ← endpoint options
      IO.println endpoint.node.data.render

end QuorumList.CommandLine

/-- Show the state of a process, or say what is wrong and fail. -/
def main (arguments : List String) : IO UInt32 := do
  match ← (QuorumList.CommandLine.showState arguments).run with
  | .ok () => pure 0
  | .error reason => do
      IO.eprintln s!"Error: {reason}"
      pure 1
