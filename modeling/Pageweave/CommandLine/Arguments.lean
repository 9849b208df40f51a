import Pageweave.CommandLine.Options
import Pageweave.Notice

/-!
# Reading command lines

The words of a command line are taken one after the other. A word with one dash is a cluster of
one-letter options, a word with two dashes a long option; either may carry a value, and otherwise
the next word is the value. After `--` every word stands for itself.

The value of an option is looked at only when the next option or the end of its level is reached,
so of two mistakes the later one may be reported. What is said about an option at the level of a
command counts more than what is said at the top level.
-/

namespace Pageweave.CommandLine

/-- An option with its value, if it has been given one yet. -/
structure Pending where
  /-- The option. -/
  setting : Setting
  /-- The value. -/
  value : Option Text

/-- What has been said at one level so far. -/
structure Said where
  /-- The switches that are on. -/
  switches : List Switch := []
  /-- The files and directories given, with the options they were given for. -/
  paths : List (Setting × Path) := []
  /-- The variables, in their order. -/
  assignments : List Assignment := []
  /-- The view path. -/
  view : Option Text := none
  /-- The option whose value has not been looked at. -/
  pending : Option Pending := none
  /-- Whether `--` has been met. -/
  verbatim : Bool := false

namespace Said

/-- Takes note of the value of an option. -/
def give (said : Said) (setting : Setting) (value : Text) : Except Interruption Said :=
  match setting with
  | .assignment =>
      match Assignment.ofText value with
      | .ok assignment => .ok { said with assignments := said.assignments ++ [assignment] }
      | .error fault => .error (.malformedAssignment fault)
  | setting =>
      if said.paths.any (·.1 = setting) then .error .conflict
      else if value = [] then .error .noValue
      else .ok { said with paths := said.paths ++ [(setting, ⟨value⟩)] }

/-- Looks at the value of the last option. -/
def settle (said : Said) : Except Interruption Said :=
  match said.pending with
  | none => .ok said
  | some ⟨_, none⟩ => .error .noValue
  | some ⟨setting, some value⟩ => give { said with pending := none } setting value

/-- Switches an option on. -/
def turnOn (said : Said) (switch : Switch) : Except Interruption Said := do
  let said ← said.settle
  match switch with
  | .help => throw .help
  | .version => throw .version
  | switch =>
      if said.switches.contains switch then throw .conflict
      else return { said with switches := said.switches ++ [switch] }

/-- Opens an option, with its value if that is part of the same word. -/
def openSetting (said : Said) (setting : Setting) (value : Option Text) :
    Except Interruption Said := do
  let said ← said.settle
  match value with
  | some value => said.give setting value
  | none => return { said with pending := some ⟨setting, none⟩ }

/-- Whether the next word is the value of an option. -/
def awaitsValue (said : Said) : Bool :=
  !said.verbatim && said.pending.any (·.value.isNone)

/-- Takes note of a word that is the value of the last option. -/
def supply (said : Said) (value : Text) : Said :=
  { said with pending := said.pending.map fun pending => { pending with value := some value } }

/-- Takes note of a word that is no option. -/
def positional (said : Said) (level : Level) (word : Text) : Except Interruption Said := do
  match level, said.view with
  | .within .render, none =>
      let said ← said.settle
      return { said with view := some word }
  | .top, _ =>
      let isCommand := (commandNamed? word).isSome || asksForHelp word
      throw (if said.verbatim && isCommand then .unknownArgument else .unknownCommand)
  | _, _ => throw .unknownArgument

/-- Takes note of a long option, given what follows the two dashes. -/
def long (said : Said) (level : Level) (word : Text) : Except Interruption Said :=
  let (name, value) :=
    match Text.splitOnce '=' word with
    | some (name, value) => (name, some value)
    | none => (word, none)
  match longOption? level name, value with
  | none, _ => .error .unknownArgument
  | some (.switch _), some _ => .error .unneededValue
  | some (.switch switch), none => said.turnOn switch
  | some (.setting setting), value => said.openSetting setting value

/-- Takes note of a cluster of one-letter options. An option with a value takes the rest of the
cluster, without an equals sign at its start, unless the rest is empty. -/
def cluster (said : Said) (level : Level) : Text → Except Interruption Said
  | [] => .ok said
  | c :: rest =>
      match shortOption? level c, rest with
      | none, _ => .error .unknownArgument
      | some (.switch switch), rest => do
          let said ← said.turnOn switch
          said.cluster level rest
      | some (.setting setting), [] => said.openSetting setting none
      | some (.setting setting), '=' :: value => said.openSetting setting (some value)
      | some (.setting setting), value => said.openSetting setting (some value)

/-- Takes note of a word that names no command. -/
def word (said : Said) (level : Level) (word : Text) : Except Interruption Said :=
  if said.verbatim then said.positional level word
  else
    match word with
    | ['-', '-'] => .ok { said with verbatim := true }
    | '-' :: '-' :: rest => said.long level rest
    | '-' :: c :: rest => said.cluster level (c :: rest)
    | word => if said.awaitsValue then .ok (said.supply word) else said.positional level word

/-- Whether no switch and no option has been given. -/
def isNothing (said : Said) : Bool :=
  said.switches.isEmpty && said.paths.isEmpty

/-- Refuses switches that exclude each other. -/
def checkSwitches (said : Said) : Except Interruption Unit :=
  if said.switches.contains .verbose && said.switches.contains .quiet then .error .conflict
  else .ok ()

/-- The path given for an option. -/
def path? (said : Said) (setting : Setting) : Option Path :=
  said.paths.lookup setting

end Said

/-- How much is reported. -/
inductive Verbosity where
  /-- As usual. -/
  | normal
  /-- More than usual. -/
  | verbose
  /-- Errors only. -/
  | quiet
deriving DecidableEq, Repr

/-- The name of the least serious kind of reports that are shown. -/
def Verbosity.level : Verbosity → Text
  | normal => "info".toList
  | verbose => "debug".toList
  | quiet => "error".toList

/-- Whether an entry of the log is shown. -/
def Verbosity.shows : Verbosity → LogEntry → Bool
  | verbose, _ => true
  | normal, entry => entry.notice?.isSome
  | quiet, entry => entry.notice?.any (·.severity = .error)

/-- The options of every command. -/
structure GlobalOptions where
  /-- How much is reported. -/
  verbosity : Verbosity := .normal
  /-- The configuration file asked for. -/
  configPath : Option Path := none
  /-- The root directory asked for. -/
  root : Option Path := none
deriving DecidableEq, Repr

/-- The options of a rendering. -/
structure RenderOptions where
  /-- The view path. -/
  view : Text
  /-- The file with the data of the view. -/
  data : Option Path := none
  /-- Further variables, in their order. -/
  assignments : List Assignment := []
  /-- The file to write to in place of the standard output. -/
  output : Option Path := none

/-- What is to be done. -/
inductive Task where
  /-- Render a view. -/
  | render (options : RenderOptions)
  /-- Cache the files of the preload roots. -/
  | preload

/-- A command line that has been understood. -/
structure Invocation where
  /-- The options of every command. -/
  globals : GlobalOptions
  /-- What is to be done. -/
  task : Task

/-- Takes note of the words at the level of a command. -/
def readCommand (command : Command) (words : List Text) : Except Interruption Said := do
  let said ← words.foldlM (fun (said : Said) word => said.word (.within command) word) {}
  said.settle

/-- The task that a command stands for with what was said at its level. -/
def taskOf (command : Command) (said : Said) : Except Interruption Task := do
  said.checkSwitches
  match command with
  | .preload => return .preload
  | .render =>
      match said.view with
      | none => throw .noView
      | some view =>
          return .render {
            view
            data := said.path? .data
            assignments := said.assignments
            output := said.path? .output }

/-- The options of every command, given what was said at the top level and at the level of the
command. -/
def globalsOf (top inner : Said) : GlobalOptions :=
  let isOn (switch : Switch) : Bool :=
    top.switches.contains switch || inner.switches.contains switch
  { verbosity := if isOn .verbose then .verbose else if isOn .quiet then .quiet else .normal
    configPath := inner.path? .config <|> top.path? .config
    root := inner.path? .root <|> top.path? .root }

/-- Reads on at the top level. -/
def readTop (said : Said) : List Text → Except Interruption Invocation
  | [] => do
      let said ← said.settle
      throw (if said.isNothing then .nothing else .noCommand)
  | word :: words =>
      let named := if said.verbatim || said.awaitsValue then none else commandNamed? word
      match named with
      | some command => do
          let inner ← readCommand command words
          let task ← taskOf command inner
          let said ← said.settle
          said.checkSwitches
          return ⟨globalsOf said inner, task⟩
      | none =>
          if !said.verbatim && !said.awaitsValue && asksForHelp word then .error (helpOn words)
          else do
            let said ← said.word .top word
            readTop said words

/-- The invocation that the words of a command line stand for. -/
def read (words : List Text) : Except Interruption Invocation :=
  readTop {} words

end Pageweave.CommandLine
