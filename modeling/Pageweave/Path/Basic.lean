import Pageweave.Text.Basic

/-!
# Paths

A path is kept as it was written. Its components are what is between the slashes, without the
empty ones and without `.` except at the very start of a relative path. Joining works on the
written form, so that a joined path shows how it was put together.
-/

namespace Pageweave

/-- A path as written. -/
structure Path where
  /-- The characters of the path. -/
  text : Text
deriving DecidableEq, Repr

namespace Path

/-- A component of a path. -/
inductive Component where
  /-- The slash an absolute path starts with. -/
  | root
  /-- The `.` a relative path may start with. -/
  | current
  /-- A `..`. -/
  | parent
  /-- The name of a file or directory. -/
  | name (name : Text)
deriving DecidableEq, Repr

/-- The path written as a string. -/
def ofString (s : String) : Path :=
  ⟨s.toList⟩

/-- The empty path. -/
def empty : Path :=
  ⟨[]⟩

/-- The root directory. -/
def rootDirectory : Path :=
  ⟨['/']⟩

/-- Whether a path starts at the root directory. -/
def isAbsolute (path : Path) : Bool :=
  path.text.head? = some '/'

/-- The component written as `piece`. -/
def Component.ofPiece (piece : Text) : Component :=
  if piece = ['.', '.'] then .parent else .name piece

/-- How a component is written. -/
def Component.text : Component → Text
  | root => ['/']
  | current => ['.']
  | parent => ['.', '.']
  | name written => written

/-- The order of the kinds of components. -/
def Component.rank : Component → Nat
  | root => 0
  | current => 1
  | parent => 2
  | name _ => 3

/-- The order of components: by their kinds, and names by their characters. -/
def Component.precedes : (first second : Component) → Bool
  | name first, name second => Text.precedes first second
  | first, second => first.rank < second.rank

/-- The components of a path. -/
def components (path : Path) : List Component :=
  let pieces := (Text.splitOn '/' path.text).filter (· ≠ [])
  let rest := (pieces.filter (· ≠ ['.'])).map Component.ofPiece
  if path.isAbsolute then .root :: rest
  else if pieces.head? = some ['.'] then .current :: rest
  else rest

/-- The path that leads to `second` from `first`: `second` itself if it is absolute, and
otherwise `second` behind `first` and a slash. -/
def join (first second : Path) : Path :=
  if second.isAbsolute then second
  else if first.text = [] || first.text.getLast? = some '/' then ⟨first.text ++ second.text⟩
  else ⟨first.text ++ '/' :: second.text⟩

/-- The path with the given components. -/
def ofComponents (components : List Component) : Path :=
  components.foldl (fun path component => path.join ⟨component.text⟩) empty

/-- One step of normalisation: the components kept so far, latest first, after the next one. A
`..` takes away the name before it, and stays where there is none to take away; above the root
directory there is nothing. -/
def normalizeStep (kept : List Component) (next : Component) : List Component :=
  match next with
  | .current => kept
  | .parent =>
      match kept with
      | .name _ :: kept => kept
      | .root :: _ => kept
      | _ => .parent :: kept
  | .root => .root :: kept
  | .name name => .name name :: kept

/-- The path without `.` and without any `..` that can be taken away. Links are not looked at. -/
def normalize (path : Path) : Path :=
  ofComponents (path.components.foldl normalizeStep []).reverse

/-- The last component of a path, if it is a name. -/
def fileName (path : Path) : Option Text :=
  match path.components.getLast? with
  | some (.name name) => some name
  | _ => none

/-- What follows the last dot of the file name, provided something stands before the dot. -/
def extension? (path : Path) : Option Text := do
  let name ← path.fileName
  let reversed := name.reverse
  let extension := (reversed.takeWhile (· ≠ '.')).reverse
  match reversed.dropWhile (· ≠ '.') with
  | _ :: _ :: _ => some extension
  | _ => none

/-- Drops the slashes and `.` components at the end of a path, given its pieces latest first;
the piece before the first slash is always kept. -/
def dropTrailing : List Text → List Text
  | piece :: before :: pieces =>
      if piece = [] || piece = ['.'] then dropTrailing (before :: pieces)
      else piece :: before :: pieces
  | pieces => pieces

/-- The path with the given pieces between slashes. -/
def ofPieces (pieces : List Text) : Path :=
  if pieces = [[]] then rootDirectory else ⟨['/'].intercalate pieces⟩

/-- The path without its last component, or `none` if it has no component to lose. -/
def parent? (path : Path) : Option Path :=
  match dropTrailing (Text.splitOn '/' path.text).reverse with
  | [] => none
  | [piece] => if piece = [] then none else some empty
  | _ :: pieces => some (ofPieces (dropTrailing pieces).reverse)

/-- Whether a path lies at `directory` or below it, component by component. -/
def isWithin (path directory : Path) : Bool :=
  directory.components.isPrefixOf path.components

/-- The order of paths, component by component. -/
def precedes (first second : Path) : Bool :=
  first.components.lex second.components Component.precedes

end Path

end Pageweave
