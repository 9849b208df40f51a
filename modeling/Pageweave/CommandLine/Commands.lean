import Pageweave.CommandLine.Arguments
import Pageweave.Config.Lookup
import Pageweave.Engine

/-!
# Commands

What the commands do. A rendering builds an engine, caches its preload roots, collects the data of
the view, loads it, and prints it or writes it to a file; the first failure ends it, and nothing is
printed or written then. Commands work on a disk, so that what they read and write can be stated.
-/

namespace Pageweave.CommandLine

/-- What a command finds around it. -/
structure Surroundings where
  /-- The configuration file named in the environment. -/
  environment : Option Text := none
  /-- Whether the output shows colours. -/
  coloured : Bool := false

/-- What a command works on and leaves behind, whether it succeeds or not. -/
structure Execution where
  /-- The files. -/
  disk : Disk
  /-- What has been printed. -/
  output : Text := []
  /-- What has been asked and reported while loading. -/
  load : LoadState := {}
  /-- What has been told before anything was loaded. -/
  told : List Detail := []

/-- All that has been reported, in its order. -/
def Execution.log (execution : Execution) : List LogEntry :=
  execution.told.map .detail ++ execution.load.log

/-- Executing a command. -/
abbrev CommandM := ExceptT Failure (StateM Execution)

namespace CommandM

/-- Fails for a cause, in the given circumstance. -/
def failWithin {α : Type} (circumstance : Text) (cause : Cause) : CommandM α :=
  throw (Failure.within circumstance { cause })

/-- Gives the result, or fails because of a view. -/
def orFail {α : Type} : Except ViewFailure α → CommandM α
  | .ok result => return result
  | .error failure => throw { cause := .view failure }

/-- Loads from the disk as it is. -/
def loading {α : Type} (action : FileSource → LoadM α) : CommandM α := do
  let execution ← get
  let (result, load) := (action execution.disk.source).run.run execution.load
  set { execution with load }
  orFail result

/-- Reports a notice. -/
def report (notice : Notice) : CommandM Unit :=
  loading fun _ => LoadM.report [notice]

/-- Tells a detail before anything is loaded. -/
def tell (detail : Detail) : CommandM Unit :=
  modify fun execution => { execution with told := execution.told ++ [detail] }

/-- Prints a text. -/
def printText (text : Text) : CommandM Unit :=
  modify fun execution => { execution with output := execution.output ++ text }

end CommandM

/-- The configuration for a command. A root directory given on the command line counts more than
the one in the configuration file. -/
def viewConfig (surroundings : Surroundings) (globals : GlobalOptions) : CommandM Config := do
  let disk := (← get).disk
  match Config.lookUp disk globals.configPath surroundings.environment with
  | .error failure => throw failure
  | .ok config =>
      CommandM.tell (Config.provenance
        (Config.file? disk globals.configPath surroundings.environment))
      return { config with root := globals.root.getD config.root }

/-- The engine with a configuration, on the working directory of the disk. -/
def engineFor (config : Config) : CommandM Engine := do
  CommandM.orFail (Engine.ofConfig (← get).disk.workingDirectory.path config)

/-- The members of the data object in the file at a path. -/
def readData (path : Path) : CommandM Members := do
  match (← get).disk.readText path with
  | .error error =>
      CommandM.failWithin ("Failed to read view data from ".toList ++ path.text) (.system error)
  | .ok text =>
      match Json.read? text with
      | none =>
          CommandM.failWithin ("Failed to parse view data from ".toList ++ path.text)
            (.malformed .json)
      | some (.object members) => return members
      | some _ =>
          let text := "View data in ".toList ++ path.text ++ " must be a JSON object".toList
          throw { cause := .described text }

/-- The data that a view is rendered with: the members of the data object, and then the variables
given one by one. -/
def contextOf (data : Members) (assignments : List Assignment) : Context :=
  let context := data.foldl (fun context (name, value) => context.assign name value) {}
  assignments.foldl (fun context assignment => assignment.applyTo context) context

/-- Writes a text to the file at a path. -/
def writeOutput (path : Path) (text : Text) : CommandM Unit := do
  match (← get).disk.write path (Utf8.encode text) 0 with
  | .error error =>
      CommandM.failWithin ("Failed to write output to ".toList ++ path.text) (.system error)
  | .ok disk =>
      modify fun execution => { execution with disk }
      CommandM.report (.written (Text.utf8Size text) path)

/-- Renders a view. -/
def render (surroundings : Surroundings) (globals : GlobalOptions) (options : RenderOptions) :
    CommandM Unit := do
  let config ← viewConfig surroundings globals
  let engine ← engineFor config
  discard (CommandM.loading engine.setup)
  let data ← match options.data with
    | some path => readData path
    | none => pure []
  let context := contextOf data options.assignments
  let text ← CommandM.loading fun source => engine.loadView source context options.view
  match options.output with
  | some path => writeOutput path text
  | none => CommandM.printText text

/-- What is printed when there is nothing to preload. -/
def nothingToPreload (coloured : Bool) : Text :=
  Style.yellow.paint coloured "No preload roots configured".toList ++ ['\n']

/-- What is printed after a preload. -/
def preloadSummary (coloured : Bool) (files roots : Nat) : Text :=
  Style.boldGreen.paint coloured "Cached".toList ++ ' ' :: Text.ofNat files ++
    " file(s) from ".toList ++ Text.ofNat roots ++ " preload root(s)\n".toList

/-- Caches the files of the preload roots, and says how many there are. -/
def preload (surroundings : Surroundings) (globals : GlobalOptions) : CommandM Unit := do
  let config ← viewConfig surroundings globals
  if config.preloads = [] then
    CommandM.printText (nothingToPreload surroundings.coloured)
  else
    let engine ← engineFor config
    let files ← CommandM.loading engine.setup
    CommandM.printText (preloadSummary surroundings.coloured files config.preloads.length)

/-- Does what a command line asks for. -/
def execute (surroundings : Surroundings) (invocation : Invocation) : CommandM Unit :=
  match invocation.task with
  | .render options => render surroundings invocation.globals options
  | .preload => preload surroundings invocation.globals

/-- The outcome of an invocation on a disk: the failure, if any, and what is left behind. -/
def run (surroundings : Surroundings) (disk : Disk) (invocation : Invocation) :
    Option Failure × Execution :=
  match (execute surroundings invocation).run.run { disk } with
  | (.ok (), execution) => (none, execution)
  | (.error failure, execution) => (some failure, execution)

end Pageweave.CommandLine
