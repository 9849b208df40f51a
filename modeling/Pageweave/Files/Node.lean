import Pageweave.Path.Basic
import Pageweave.Text.Utf8

/-!
# File trees

A tree of directories, files and symbolic links. A place in it is given by the names that lead
there from the root, links not followed. The children of a directory are kept in the order of
their names.
-/

namespace Pageweave

/-- A place in a file tree: the names that lead there from the root. -/
abbrev Location := List Text

namespace Location

/-- The absolute path of a place. -/
def path (location : Location) : Path :=
  match location with
  | [] => Path.rootDirectory
  | names => ⟨names.flatMap fun name => '/' :: name⟩

end Location

/-- What stands at a place in a file tree. -/
inductive Node where
  /-- A regular file, with the time of its last modification in microseconds since the start of
  1970. -/
  | file (content : Bytes) (modified : Int)
  /-- A directory with the names and nodes in it, in the order of the names. -/
  | directory (children : List (Text × Node))
  /-- A symbolic link. -/
  | link (target : Path)
  /-- A file that is neither regular nor a directory nor a link, and has no content. -/
  | device

namespace Node

/-- The children of a directory with the node under a name set or, with `none`, removed. -/
def setChild (name : Text) (node : Option Node) : List (Text × Node) → List (Text × Node)
  | [] => (node.map fun node => (name, node)).toList
  | (other, present) :: children =>
      if name = other then (node.map fun node => (name, node)).toList ++ children
      else if Text.precedes name other then
        (node.map fun node => (name, node)).toList ++ (other, present) :: children
      else (other, present) :: setChild name node children

/-- The children of a node; none unless it is a directory. -/
def children : Node → List (Text × Node)
  | directory children => children
  | file _ _ | link _ | device => []

/-- The node under a name in a directory. -/
def child? (node : Node) (name : Text) : Option Node :=
  (node.children.find? (·.1 = name)).map (·.2)

/-- The node at a place below a node. -/
def at? (node : Node) : Location → Option Node
  | [] => some node
  | name :: location =>
      match node.child? name with
      | none => none
      | some child => child.at? location

/-- The tree with the node at a place below a node set or, with `none`, removed. Nothing changes if
the place lies in no directory. -/
def setAt (node : Node) (change : Option Node) : Location → Node
  | [] => change.getD node
  | [name] =>
      match node with
      | directory children => directory (setChild name change children)
      | other => other
  | name :: location =>
      match node.child? name with
      | none => node
      | some child => directory (setChild name (some (child.setAt change location)) node.children)

mutual

/-- The regular files at or below a node, with their places and modification times. -/
def files (location : Location) : Node → List (Location × Int)
  | file _ modified => [(location, modified)]
  | directory children => filesOfChildren location children
  | link _ | device => []

/-- The regular files at or below the children of a directory. -/
def filesOfChildren (location : Location) : List (Text × Node) → List (Location × Int)
  | [] => []
  | (name, child) :: children =>
      files (location ++ [name]) child ++ filesOfChildren location children

end

end Node

end Pageweave
