import Pageweave.Notice
import Pageweave.Text.Base64

/-!
# Processing file contents

Before a file is cached its bytes are turned into text once, in a way that depends on the file's
extension: scripts are minified, style sheets and template fragments are put on one line, images
become `data:` addresses, and everything else is taken as it is.
-/

namespace Pageweave

/-- How the content of a file is processed. -/
inductive ContentKind where
  /-- A script, to be minified. -/
  | script
  /-- A style sheet or template fragment, to be put on one line. -/
  | flattened
  /-- An image of the given media type. -/
  | image (mediaType : String)
  /-- Any other text. -/
  | plain
deriving DecidableEq, Repr

namespace ContentKind

/-- The kind that an extension in lower case stands for. -/
def ofLowerExtension (extension : String) : ContentKind :=
  match extension with
  | "js" => .script
  | "css" | "tpl" => .flattened
  | "png" => .image "image/png"
  | "gif" => .image "image/gif"
  | "jpg" | "jpeg" => .image "image/jpeg"
  | _ => .plain

/-- The kind that an extension stands for; the case of ASCII letters does not matter. -/
def ofExtension (extension : Text) : ContentKind :=
  ofLowerExtension (String.ofList (extension.map Char.toLower))

/-- The kind of the file at a path. -/
def ofPath (path : Path) : ContentKind :=
  ofExtension (path.extension?.getD [])

end ContentKind

namespace Content

/-- The text of a file's bytes. Ill-formed bytes are replaced, with a notice. -/
def decode (path : Path) (bytes : Bytes) : Text × List Notice :=
  match Utf8.decode? bytes with
  | some text => (text, [])
  | none => (Utf8.decodeLossy bytes, [.illFormedText path])

/-- The text that is cached for a file, and the notices about it. A script is minified if
`minify` is set, and kept as it is if it cannot be. -/
def process (minify : Bool) (path : Path) (bytes : Bytes) : Text × List Notice :=
  match ContentKind.ofPath path with
  | .image mediaType =>
      ("data:".toList ++ mediaType.toList ++ ";base64,".toList ++ Base64.encode bytes, [])
  | .script =>
      let (text, notices) := decode path bytes
      if minify then
        match Script.minify text with
        | .ok minified => (minified, notices)
        | .error failure => (text, notices ++ [.notMinified path failure])
      else (text, notices)
  | .flattened =>
      let (text, notices) := decode path bytes
      (text.filter fun c => c ≠ '\r' && c ≠ '\n' && c ≠ '\t', notices)
  | .plain => decode path bytes

end Content

end Pageweave
