import Pageweave.CommandLine.Assignment
import Pageweave.Path.Basic

/-!
# Options

What can be said on the command line. Words stand at the top level until a command is named, and
at the level of the command after that. Some options are known at every level, and others only at
one of them. The reading of a command line may also end early: with a wish for help or for the
version, or with a mistake.
-/

namespace Pageweave.CommandLine

/-- The commands. -/
inductive Command where
  /-- Load a view and print or write it. -/
  | render
  /-- Cache the files of the preload roots. -/
  | preload
deriving DecidableEq, Repr

/-- The level that words stand at: the top level or that of a command. -/
inductive Level where
  /-- Before a command is named. -/
  | top
  /-- After a command. -/
  | within (command : Command)
deriving DecidableEq, Repr

/-- The options without a value. -/
inductive Switch where
  /-- Report more. -/
  | verbose
  /-- Report errors only. -/
  | quiet
  /-- Show help. -/
  | help
  /-- Show the version. -/
  | version
deriving DecidableEq, Repr

/-- The options with a value. -/
inductive Setting where
  /-- The configuration file. -/
  | config
  /-- The directory that view paths are relative to. -/
  | root
  /-- The file with the data of the view. -/
  | data
  /-- A variable with its value. -/
  | assignment
  /-- The file to write the view to. -/
  | output
deriving DecidableEq, Repr

/-- An option. -/
inductive OptionKind where
  /-- An option without a value. -/
  | switch (switch : Switch)
  /-- An option with a value. -/
  | setting (setting : Setting)
deriving DecidableEq, Repr

/-- Why the reading of a command line ends early. -/
inductive Interruption where
  /-- Help is asked for. -/
  | help
  /-- The version is asked for. -/
  | version
  /-- Nothing is said at all. -/
  | nothing
  /-- There are options, but no command. -/
  | noCommand
  /-- There is no command of that name. -/
  | unknownCommand
  /-- There is no such option, or one word too many. -/
  | unknownArgument
  /-- A switch is given a value. -/
  | unneededValue
  /-- An option is given no value, or an empty one. -/
  | noValue
  /-- A value has not the form of an assignment. -/
  | malformedAssignment (fault : AssignmentFault)
  /-- An option is given twice, or together with one that excludes it. -/
  | conflict
  /-- There is no view path. -/
  | noView
deriving DecidableEq, Repr

/-- The status that the program exits with when the reading ends early. -/
def Interruption.exitStatus : Interruption → Nat
  | help | version => 0
  | nothing | noCommand | unknownCommand | unknownArgument | unneededValue | noValue
  | malformedAssignment _ | conflict | noView => 2

/-- The option with a long name at a level. -/
def longOption? (level : Level) (name : Text) : Option OptionKind :=
  match level, String.ofList name with
  | _, "verbose" => some (.switch .verbose)
  | _, "quiet" => some (.switch .quiet)
  | _, "help" => some (.switch .help)
  | .top, "version" => some (.switch .version)
  | _, "config" => some (.setting .config)
  | _, "root" => some (.setting .root)
  | .within .render, "data" => some (.setting .data)
  | .within .render, "set" => some (.setting .assignment)
  | .within .render, "output" => some (.setting .output)
  | _, _ => none

/-- The option with a one-letter name at a level. -/
def shortOption? (level : Level) (name : Char) : Option OptionKind :=
  match level, name with
  | _, 'v' => some (.switch .verbose)
  | _, 'q' => some (.switch .quiet)
  | _, 'h' => some (.switch .help)
  | .top, 'V' => some (.switch .version)
  | _, 'c' => some (.setting .config)
  | .within .render, 'o' => some (.setting .output)
  | _, _ => none

/-- The command with a name. -/
def commandNamed? (name : Text) : Option Command :=
  match String.ofList name with
  | "render" => some .render
  | "preload" => some .preload
  | _ => none

/-- Whether a word names the command that shows help. -/
def asksForHelp (word : Text) : Bool :=
  word = "help".toList

/-- What the command that shows help comes to: it may be followed by the name of one command. -/
def helpOn : List Text → Interruption
  | [] => .help
  | [name] =>
      if (commandNamed? name).isSome || asksForHelp name then .help else .unknownCommand
  | _ => .unknownCommand

end Pageweave.CommandLine
