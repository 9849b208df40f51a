import Pageweave.Path.Basic

/-!
# Failures of file access

Why the operating system refused an operation on a file, and what was being attempted. A failure
carries the path, the purpose and the component it happened in, so that its message can name them.
-/

namespace Pageweave

/-- The kinds of system errors that messages tell apart. -/
inductive ErrorKind where
  /-- There is no such file. -/
  | notFound
  /-- Access is not permitted. -/
  | permissionDenied
  /-- The content is not what was expected. -/
  | invalidData
  /-- Anything else. -/
  | other
deriving DecidableEq, Repr

/-- Why the operating system refused an operation. -/
inductive SystemError where
  /-- There is no file at the path. -/
  | notFound
  /-- A component of the path before its end is not a directory. -/
  | notDirectory
  /-- The file is a directory. -/
  | isDirectory
  /-- A name or the whole path is too long. -/
  | nameTooLong
  /-- The path leads through too many links. -/
  | tooManyLinks
  /-- The path contains the character with number zero. -/
  | zeroInPath
  /-- The content is not well-formed text. -/
  | illFormedText
  /-- An error of the given kind, described by a text. -/
  | described (kind : ErrorKind) (text : Text)
deriving DecidableEq, Repr

namespace SystemError

/-- The kind of a system error. -/
def kind : SystemError → ErrorKind
  | notFound => .notFound
  | illFormedText => .invalidData
  | described kind _ => kind
  | notDirectory | isDirectory | nameTooLong | tooManyLinks | zeroInPath => .other

/-- The wording of a system error. -/
def message : SystemError → Text
  | notFound => "No such file or directory (os error 2)".toList
  | notDirectory => "Not a directory (os error 20)".toList
  | isDirectory => "Is a directory (os error 21)".toList
  | nameTooLong => "File name too long (os error 36)".toList
  | tooManyLinks => "Too many levels of symbolic links (os error 40)".toList
  | zeroInPath => "file name contained an unexpected NUL byte".toList
  | illFormedText => "stream did not contain valid UTF-8".toList
  | described _ text => text

end SystemError

/-- What is done with a file. -/
inductive FileOperation where
  /-- Its content is read. -/
  | read
  /-- Its modification time is asked for. -/
  | metadata
  /-- The files below it are listed. -/
  | walk
  /-- Its path is made canonical. -/
  | canonicalize
deriving DecidableEq, Repr

/-- An operation in words. -/
def FileOperation.phrase : FileOperation → Text
  | read => "reading".toList
  | metadata => "getting file metadata".toList
  | walk => "walking directory".toList
  | canonicalize => "resolving path".toList

/-- A refused operation with the circumstances it was attempted in. -/
structure FileFailure where
  /-- What was attempted. -/
  operation : FileOperation
  /-- The path it was attempted on. -/
  path : Path
  /-- What it was attempted for. -/
  purpose : Text
  /-- The component that attempted it. -/
  caller : Text
  /-- Why it was refused. -/
  cause : SystemError
deriving DecidableEq, Repr

namespace FileFailure

/-- The failure in one line, without its cause. -/
def message (failure : FileFailure) : Text :=
  "File operation failed: ".toList ++ failure.operation.phrase ++ " on ".toList ++
    failure.path.text

/-- The advice for a missing file. -/
def missingFileAdvice (purpose : Text) : Text :=
  "\n\nThe file does not exist at the specified path.".toList ++
    if (Text.search (Text.after? "include".toList) purpose).isSome then
      "\n\nFor included templates, ensure:".toList ++
        "\n- The include path is relative to the view root".toList ++
        "\n- The filename is spelled correctly (case-sensitive)".toList
    else []

/-- The failure with its circumstances and advice, for users. -/
def explanation (failure : FileFailure) : Text :=
  "Failed ".toList ++ failure.operation.phrase ++ " '".toList ++ failure.path.text ++
    "' for ".toList ++ failure.purpose ++ " (".toList ++ failure.caller ++ ")".toList ++
    match failure.cause.kind with
    | .notFound => missingFileAdvice failure.purpose
    | .permissionDenied =>
        "\n\nPermission denied. Check file/directory permissions for: ".toList ++
          failure.path.text
    | .invalidData =>
        "\n\nThe file contains invalid data or encoding.".toList ++
          "\nEnsure the file contains valid UTF-8 text.".toList
    | .other => "\n\nError details: ".toList ++ failure.cause.message

end FileFailure

end Pageweave
