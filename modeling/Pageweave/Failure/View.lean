import Pageweave.Failure.File

/-!
# Failures of loading views

What stops a load, a preload or the start of an engine: a file that cannot be read, a path whose
files cannot be listed, or a configuration that makes no sense. Everything else is a notice.
-/

namespace Pageweave

/-- Why the files below a path cannot be listed. -/
inductive WalkFailure where
  /-- The operating system refused an operation on a path below it. -/
  | refused (path : Path) (cause : SystemError)
  /-- A link leads back to a directory that contains it. -/
  | loop (child ancestor : Path)
deriving DecidableEq, Repr

namespace WalkFailure

/-- The path below which the walk got stuck. -/
def path : WalkFailure → Path
  | refused path _ => path
  | loop child _ => child

/-- The system error behind the failure, if there is one. -/
def cause? : WalkFailure → Option SystemError
  | refused _ cause => some cause
  | loop _ _ => none

/-- The wording of the failure. -/
def message : WalkFailure → Text
  | refused path cause =>
      "IO error for operation on ".toList ++ path.text ++ ": ".toList ++ cause.message
  | loop child ancestor =>
      "File system loop found: ".toList ++ child.text ++ " points to an ancestor ".toList ++
        ancestor.text

end WalkFailure

/-- What is wrong with a configuration. -/
inductive ConfigFault where
  /-- The anchor is empty. -/
  | emptyAnchor
  /-- The client variable is no script identifier. -/
  | invalidVariable (name : Text)
  /-- No substitutions are allowed. -/
  | noSubstitutions
  /-- A fault described by a text. -/
  | described (text : Text)
deriving DecidableEq, Repr

/-- The wording of a fault. -/
def ConfigFault.message : ConfigFault → Text
  | emptyAnchor => "context_anchor must not be empty".toList
  | invalidVariable name =>
      "client_variable '".toList ++ name ++ "' is not a valid script identifier".toList
  | noSubstitutions => "max_substitutions must be greater than zero".toList
  | described text => text

/-- What stops a load, a preload or the start of an engine. -/
inductive ViewFailure where
  /-- A file could not be read or inspected. -/
  | file (failure : FileFailure)
  /-- The files below a path could not be listed. -/
  | walk (failure : WalkFailure)
  /-- The configuration makes no sense. -/
  | config (fault : ConfigFault)
deriving DecidableEq, Repr

namespace ViewFailure

/-- The path a failure is attached to, if any. -/
def path? : ViewFailure → Option Path
  | file failure => some failure.path
  | walk failure => some failure.path
  | config _ => none

/-- The failure in one line. -/
def message : ViewFailure → Text
  | file failure => failure.message
  | walk failure =>
      "Failed to walk '".toList ++ failure.path.text ++ "': ".toList ++ failure.message
  | config fault => "Configuration error: ".toList ++ fault.message

/-- The texts of a failure and of everything behind it, outermost first. -/
def chain : ViewFailure → List Text
  | file failure => [failure.message, failure.cause.message]
  | walk failure =>
      message (.walk failure) :: failure.message ::
        (failure.cause?.map SystemError.message).toList
  | config fault => [message (.config fault)]

/-- The failure with advice, for users. -/
def explanation : ViewFailure → Text
  | file failure => failure.explanation
  | walk failure =>
      "Failed walking '".toList ++ failure.path.text ++ "'".toList ++
        match failure.cause?.map SystemError.kind with
        | some .notFound => "\n\nThe view path does not exist under the view root.".toList
        | some .permissionDenied => "\n\nPermission denied while listing the directory.".toList
        | _ => "\n\nError details: ".toList ++ failure.message
  | config fault => message (.config fault)

end ViewFailure

end Pageweave
