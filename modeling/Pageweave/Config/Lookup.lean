import Pageweave.Config.Reader
import Pageweave.Files.Disk

/-!
# Looking up configurations

A configuration is read from the file asked for on the command line, or else from the one named in
the environment, or else from the standard file in the working directory. Only the standard file
may be missing; the defaults then hold. A relative view root in a file is relative to the directory
of that file.
-/

namespace Pageweave.Config

/-- The environment variable that may name a configuration file. -/
def environmentVariable : String := "TPLVIEW_CONFIG"

/-- The configuration file looked for in the working directory. -/
def standardFile : Path := Path.ofString "tplview.toml"

/-- The configuration whose view root starts from the directory of the file at a path. -/
def rootedAt (file : Path) (config : Config) : Config :=
  match file.parent? with
  | some directory => { config with root := directory.join config.root }
  | none => config

/-- The configuration in the file at a path. -/
def ofFile (disk : Disk) (path : Path) : Except Failure Config :=
  match disk.readText path with
  | .error error =>
      .error (Failure.within ("Failed to read view config from ".toList ++ path.text)
        { cause := .system error })
  | .ok text =>
      match read text with
      | .error cause =>
          .error (Failure.within ("Failed to parse view config from ".toList ++ path.text)
            { cause })
      | .ok config => .ok (config.rootedAt path)

/-- The configuration file for a command, if there is one, given the file asked for and the file
named in the environment. -/
def file? (disk : Disk) (requested : Option Path) (environment : Option Text) : Option Path :=
  match requested, environment.filter (· ≠ []) with
  | some path, _ => some path
  | none, some path => some ⟨path⟩
  | none, none => if disk.isPresent standardFile then some standardFile else none

/-- The configuration for a command, given the file asked for and the file named in the
environment. -/
def lookUp (disk : Disk) (requested : Option Path) (environment : Option Text) :
    Except Failure Config :=
  match file? disk requested environment with
  | some path => ofFile disk path
  | none => .ok {}

/-- What is told about a configuration that was found in a file or nowhere. -/
def provenance : Option Path → Detail
  | some path => .configRead path
  | none => .defaultConfig

end Pageweave.Config
