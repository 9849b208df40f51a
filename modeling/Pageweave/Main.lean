import Pageweave.CommandLine.Commands

/-!
# The program

Runs a command line on the real files. A command works on a disk in memory; this module copies
onto it what the command may ask for: the files named by options to begin with, and then, as long
as the command has asked for the files below a path that has not been copied, those files, after
which the command is run again. Only the last run counts.
-/

namespace Pageweave.Program

open Pageweave.CommandLine

/-- What is shown of the ways to use the program. -/
def usage : String :=
  "Usage: pageweave [-v | -q] [-c FILE] [--root DIR] COMMAND\n\n" ++
    "  render VIEW [--data FILE] [--set KEY=VALUE]... [-o FILE]\n" ++
    "      Load a view and print the result, or write it to a file\n" ++
    "  preload\n" ++
    "      Cache the files of the configured preload roots\n"

/-- What stands at the place under a name in a real directory. The target of a link is given as the
place it leads to in the end; a broken link leads to a name that no file has. -/
def nodeAt (directory : Location) (name : Text) : IO (Option Node) := do
  let entry : IO.FS.DirEntry :=
    ⟨String.ofList (directory.flatMap fun part => '/' :: part), String.ofList name⟩
  let metadata? ← try pure (some (← entry.path.symlinkMetadata)) catch _ => pure none
  let some metadata := metadata? | return none
  match metadata.type with
  | .dir => return some (.directory [])
  | .other => return some .device
  | .symlink =>
      let target ← try pure (← IO.FS.realPath entry.path).toString.toList
        catch _ => pure ['\x00']
      return some (.link ⟨target⟩)
  | .file =>
      let content ← IO.FS.readBinFile entry.path
      let modified := metadata.modified
      return some (.file content.toList (modified.sec * 1000000 + modified.nsec.toNat / 1000))

/-- Copies what stands on the way from a place through some names, and says where the way ends. -/
partial def copyWay (disk : Disk) (here : Location) (names : List Text) :
    IO (Disk × Option Location) := do
  match names with
  | [] => return (disk, some here)
  | name :: names =>
      if name = ['.'] then copyWay disk here names
      else if name = ['.', '.'] then copyWay disk here.dropLast names
      else
        let place := here ++ [name]
        let present := disk.root.at? place
        let some node ← (if present.isSome then pure present else nodeAt here name)
          | return (disk, none)
        let disk := if present.isSome then disk else disk.setAt place (some node)
        match node with
        | .link target => copyWay disk [] (target.lookups ++ names)
        | _ => copyWay disk place names

/-- Copies what stands below a place, unless that has been done. -/
partial def copyBelow (copied : List Location) (disk : Disk) (place : Location) :
    IO (List Location × Disk) := do
  match disk.root.at? place with
  | some (.directory _) =>
      if copied.contains place then return (copied, disk)
      let mut copied := place :: copied
      let mut disk := disk
      for entry in ← (← IO.FS.realPath (String.ofList place.path.text)).readDir do
        let (next, there) ← copyWay disk place [entry.fileName.toList]
        disk := next
        if let some there := there then
          (copied, disk) ← copyBelow copied disk there
      return (copied, disk)
  | _ => return (copied, disk)

/-- The absolute form of a path. -/
def absolute (disk : Disk) (path : Path) : Path :=
  disk.workingDirectory.path.join path

/-- The files that the options of an invocation name. -/
def namedFiles (environment : Option Text) (invocation : Invocation) : List Path :=
  let output := match invocation.task with
    | .render options =>
        options.data.toList ++ (options.output.bind Path.parent?).toList
    | .preload => []
  invocation.globals.configPath.toList ++ (environment.map Path.mk).toList ++
    [Config.standardFile] ++ output

/-- The paths below which a run has asked for files. -/
def walkedPaths (execution : Execution) : List Path :=
  execution.load.accesses.filterMap fun access =>
    match access with
    | .walk path => some path
    | .skip _ | .expand _ | .fetch _ | .read _ | .scan _ _ => none

/-- Runs an invocation until everything it asks for has been copied; `known` are the paths below
which files have been copied. -/
partial def runCopying (surroundings : Surroundings) (invocation : Invocation)
    (known : List Path) (copied : List Location) (disk : Disk) :
    IO (Option Failure × Execution) := do
  let (failure, execution) := run surroundings disk invocation
  let wanted := (walkedPaths execution).filter fun path => !known.contains path
  if wanted.isEmpty then return (failure, execution)
  let mut copied := copied
  let mut disk := disk
  for path in wanted do
    let (next, there) ← copyWay disk [] path.lookups
    disk := next
    if let some there := there then
      (copied, disk) ← copyBelow copied disk there
  runCopying surroundings invocation (wanted ++ known) copied disk

/-- Writes the file that a rendering is to be written to. -/
def writeResult (invocation : Invocation) (execution : Execution) : IO Unit := do
  if let .render { output := some path, .. } := invocation.task then
    if let .ok bytes := execution.disk.read path then
      IO.FS.writeBinFile (String.ofList path.text) ⟨bytes.toArray⟩

/-- The word for the kind of an entry in the log. -/
def label : LogEntry → String
  | .detail _ => "DEBUG"
  | .notice notice =>
      match notice.severity with
      | .error => "ERROR"
      | .warning => "WARN"
      | .information => "INFO"

/-- Shows the entries of a log that are to be shown. -/
def showLog (verbosity : Verbosity) (log : List LogEntry) : IO Unit := do
  for entry in log do
    if verbosity.shows entry then
      IO.eprintln (label entry ++ " " ++ String.ofList entry.message)

/-- Runs an invocation on the real files, and gives the status to exit with. -/
def runOnFiles (invocation : Invocation) : IO UInt32 := do
  let plain := (← IO.getEnv "NO_COLOR").isSome
  let surroundings : Surroundings :=
    { environment := (← IO.getEnv Config.environmentVariable).map String.toList
      coloured := !plain && (← (← IO.getStdout).isTty) }
  let here := (← IO.currentDir).toString.toList
  let workingDirectory := (Text.splitOn '/' here).filter (· ≠ [])
  let (start, _) ← copyWay ⟨.directory [], workingDirectory⟩ [] workingDirectory
  let mut disk := start
  for path in namedFiles surroundings.environment invocation do
    let (next, _) ← copyWay disk [] (absolute disk path).lookups
    disk := next
  let (failure, execution) ← runCopying surroundings invocation [] [] disk
  showLog invocation.globals.verbosity execution.log
  match failure with
  | some failure =>
      let coloured := !plain && (← (← IO.getStderr).isTty)
      IO.eprint (String.ofList ((Report.ofFailure failure).display coloured))
      return 1
  | none =>
      IO.print (String.ofList execution.output)
      writeResult invocation execution
      return 0

end Pageweave.Program

/-- Reads the command line and does what it asks for. -/
def main (arguments : List String) : IO UInt32 := do
  match Pageweave.CommandLine.read (arguments.map String.toList) with
  | .ok invocation =>
      try Pageweave.Program.runOnFiles invocation
      catch problem =>
        IO.eprintln ("error: " ++ toString problem)
        return 1
  | .error .version =>
      IO.println "pageweave 0.1.0"
      return 0
  | .error .help =>
      IO.print Pageweave.Program.usage
      return 0
  | .error interruption =>
      IO.eprint Pageweave.Program.usage
      return interruption.exitStatus.toUInt32
