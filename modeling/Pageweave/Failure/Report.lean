import Pageweave.Failure.View

/-!
# Reports to users

Any failure of a command is a cause with the circumstances around it. A report is what the user is
shown: a message, and perhaps details and a suggestion, in colour or not.
-/

namespace Pageweave

/-- The formats of the files a command reads. -/
inductive FileFormat where
  /-- Data in JSON. -/
  | json
  /-- A configuration in TOML. -/
  | toml
deriving DecidableEq, Repr

/-- What stands in messages for the description of a mistake in a file of the given format. -/
def FileFormat.mistake : FileFormat → Text
  | json => "<json>".toList
  | toml => "<toml>".toList

/-- The innermost cause of a failure. -/
inductive Cause where
  /-- A view could not be loaded or an engine not be started. -/
  | view (failure : ViewFailure)
  /-- A file operation was refused. -/
  | file (failure : FileFailure)
  /-- The operating system refused something. -/
  | system (error : SystemError)
  /-- A file does not have the format it should have. -/
  | malformed (format : FileFormat)
  /-- A cause described by a text. -/
  | described (text : Text)
deriving DecidableEq, Repr

/-- The texts of a cause and of everything behind it, outermost first. -/
def Cause.chain : Cause → List Text
  | view failure => failure.chain
  | file failure => [failure.message, failure.cause.message]
  | system error => [error.message]
  | malformed format => [format.mistake]
  | described text => [text]

/-- A failure: its cause and the circumstances around it. -/
structure Failure where
  /-- The circumstances, outermost first. -/
  circumstances : List Text := []
  /-- The innermost cause. -/
  cause : Cause
deriving DecidableEq, Repr

namespace Failure

/-- The failure in wider circumstances. -/
def within (circumstance : Text) (failure : Failure) : Failure :=
  { failure with circumstances := circumstance :: failure.circumstances }

/-- The texts of the failure and of everything behind it, outermost first. -/
def chain (failure : Failure) : List Text :=
  failure.circumstances ++ failure.cause.chain

/-- The outermost text. -/
def message (failure : Failure) : Text :=
  failure.chain.headD []

/-- All texts in one line. -/
def line (failure : Failure) : Text :=
  [':', ' '].intercalate failure.chain

/-- The failure to load a view that is behind the failure, if that is its cause. -/
def viewFailure? (failure : Failure) : Option ViewFailure :=
  match failure.cause with
  | .view viewFailure => some viewFailure
  | _ => none

end Failure

/-- What a user is shown of a failure. -/
structure Report where
  /-- What happened. -/
  message : Text
  /-- More about it. -/
  details : Option Text := none
  /-- What can be done about it. -/
  suggestion : Option Text := none
deriving DecidableEq, Repr

/-- A style of text on a terminal. -/
inductive Style where
  /-- Bold and red. -/
  | boldRed
  /-- Bold and green. -/
  | boldGreen
  /-- Green. -/
  | green
  /-- Yellow. -/
  | yellow
deriving DecidableEq, Repr

/-- The code that switches a style on. -/
def Style.code : Style → Text
  | boldRed => "1;31".toList
  | boldGreen => "1;32".toList
  | green => "32".toList
  | yellow => "33".toList

/-- A text in a style, or as it is if the terminal shows no colours. -/
def Style.paint (style : Style) (coloured : Bool) (text : Text) : Text :=
  if coloured then
    "\x1b[".toList ++ style.code ++ 'm' :: text ++ "\x1b[0m".toList
  else text

namespace Report

/-- The report without styles, in lines. -/
def text (report : Report) : Text :=
  report.message ++
    (report.details.map fun details => "\nDetails: ".toList ++ details).getD [] ++
    (report.suggestion.map fun suggestion => "\nSuggestion: ".toList ++ suggestion).getD []

/-- The report as shown on a terminal. -/
def display (coloured : Bool) (report : Report) : Text :=
  let entry (style : Style) (label : String) (text : Text) : Text :=
    style.paint coloured label.toList ++ ": ".toList ++ text ++ ['\n']
  entry .boldRed "error" report.message ++
    (report.details.map (entry .yellow "details")).getD [] ++
    (report.suggestion.map (entry .green "suggestion")).getD []

/-- The suggestion for a path that cannot be loaded. -/
def pathSuggestion : Text :=
  ("Check that the path exists relative to the view root " ++
    "(see --root or \x60root\x60 in the config file)").toList

/-- The report on a failure. -/
def ofFailure (failure : Failure) : Report :=
  match failure.cause with
  | .view (.config fault) => { message := ViewFailure.explanation (.config fault) }
  | .view viewFailure =>
      { message := viewFailure.explanation, suggestion := some pathSuggestion }
  | .malformed .toml =>
      { message := "Invalid configuration file: ".toList ++ FileFormat.toml.mistake
        suggestion := some "Check the TOML syntax of the [view] table".toList }
  | .malformed .json =>
      { message := "Invalid view data: ".toList ++ FileFormat.json.mistake
        suggestion := some "The --data file must contain a JSON object".toList }
  | .file _ | .system _ | .described _ => { message := failure.line }

end Report

end Pageweave
