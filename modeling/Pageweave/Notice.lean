import Pageweave.Cache
import Pageweave.Script.Minify

/-!
# Notices and details

What is reported while views are loaded, in the order in which it happens. A notice never stops a
load; it says what was left as it stood, or what was done. A detail says which step is being taken,
for those who want to follow each of them. A log holds both.

The layout of a line in a log, with its time and colours, is left out, and so is the environment
variable `RUST_LOG`, by which one can choose what is shown otherwise than by the options.
-/

namespace Pageweave

/-- How serious a notice is. -/
inductive Severity where
  /-- Something could not be done as asked. -/
  | error
  /-- Something is probably not meant as it stands. -/
  | warning
  /-- Something was done. -/
  | information
deriving DecidableEq, Repr

/-- Something reported on the way. -/
inductive Notice where
  /-- A file is not well-formed text; what is ill-formed in it was replaced. -/
  | illFormedText (path : Path)
  /-- A script could not be minified and was kept as it is. -/
  | notMinified (path : Path) (cause : Script.Unterminated)
  /-- A tag asks for a value that the context does not have. -/
  | missingValue (tag : Text)
  /-- A tag asks for more than there is; the last value reached was used. -/
  | partialValue (tag missing : Text)
  /-- As many values were substituted as are allowed in one scan. -/
  | substitutionLimit (limit : Nat)
  /-- A tag has an indicator without a meaning. -/
  | unknownDirective (tag : Text)
  /-- The preload roots were cached. -/
  | preloaded (files : Nat)
  /-- A rendered view was written to a file. -/
  | written (bytes : Nat) (path : Path)
deriving DecidableEq, Repr

namespace Notice

/-- How serious a notice is. -/
def severity : Notice → Severity
  | notMinified _ _ | partialValue _ _ => .error
  | illFormedText _ | missingValue _ | substitutionLimit _ | unknownDirective _ => .warning
  | preloaded _ | written _ _ => .information

/-- The wording of a notice. -/
def message : Notice → Text
  | illFormedText path => path.text ++ " is not valid UTF-8 text, invalid bytes replaced".toList
  | notMinified path cause =>
      "Failed to minify ".toList ++ path.text ++ ": ".toList ++ cause.message
  | missingValue tag => "No value found for tag \"".toList ++ tag ++ ['\x22']
  | partialValue tag absent =>
      "Unable to resolve '".toList ++ absent ++ "' in ".toList ++ tag ++
        ": using the value reached before it".toList
  | substitutionLimit limit =>
      "Substitution limit of ".toList ++ Text.ofNat limit ++
        " reached, leaving remaining tags as-is".toList
  | unknownDirective tag => "Unknown directive indicator found: ".toList ++ tag
  | preloaded files => "Preloaded ".toList ++ Text.ofNat files ++ " view file(s)".toList
  | written bytes path =>
      "Wrote ".toList ++ Text.ofNat bytes ++ " bytes to ".toList ++ path.text

end Notice

/-- A step that is being taken. -/
inductive Detail where
  /-- There is no configuration file, and the defaults hold. -/
  | defaultConfig
  /-- The configuration was read from a file. -/
  | configRead (path : Path)
  /-- The preload roots are going to be cached. -/
  | settingUp
  /-- The files under a path are going to be cached. -/
  | preloading (path : Path)
  /-- The view at a path is going to be loaded. -/
  | loading (path : Path)
  /-- The files under a path were listed. -/
  | walked (files : Nat) (path : Path)
  /-- A file version was passed over, since its key had been seen. -/
  | passedOver (key : Key)
  /-- The content under a key was in the cache. -/
  | found (key : Key)
  /-- The content under a key goes into the cache. -/
  | stored (key : Key)
deriving DecidableEq, Repr

/-- The wording of a detail. -/
def Detail.message : Detail → Text
  | defaultConfig => "No configuration file found, using defaults".toList
  | configRead path => "Loaded view config from ".toList ++ path.text
  | settingUp => "Preloading view files".toList
  | preloading path => "Preloading view files under ".toList ++ path.text
  | loading path => "Loading view ".toList ++ path.text
  | walked files path =>
      "Walked ".toList ++ Text.ofNat files ++ " file(s) under ".toList ++ path.text
  | passedOver key => "File already included [".toList ++ key.text ++ "]: ignored".toList
  | found key => "View output data found in cache: ".toList ++ key.text
  | stored key => "View output data stored in cache: ".toList ++ key.text

/-- Something that a log holds. -/
inductive LogEntry where
  /-- A notice was given. -/
  | notice (notice : Notice)
  /-- A detail was told. -/
  | detail (detail : Detail)
deriving DecidableEq, Repr

namespace LogEntry

/-- The notice, if it is one. -/
def notice? : LogEntry → Option Notice
  | notice given => some given
  | detail _ => none

/-- The wording of an entry. -/
def message : LogEntry → Text
  | notice given => given.message
  | detail told => told.message

theorem filterMap_notice?_map_detail (details : List Detail) :
    (details.map detail).filterMap notice? = [] := by
  simp [notice?]

end LogEntry

end Pageweave
