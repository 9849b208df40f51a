import Pageweave.Files.Node
import Pageweave.Load.Source

/-!
# Disks

A disk is a file tree with a working directory. Paths are followed name by name; a symbolic link
on the way is replaced by its target. A path may lead through at most forty links.

A walk lists the regular files below a path, depth first and in the order of the names in each
directory, and follows links. A link to a directory that the walk is inside of is a failure. The
length of a path is limited where the path is given. The routes that a walk opens below it are
taken to be shorter than that: that they, too, could be refused for their length is left out.
-/

namespace Pageweave

/-- A file tree with a working directory. -/
structure Disk where
  /-- The tree. -/
  root : Node
  /-- The place that relative paths start from. -/
  workingDirectory : Location

/-- Where a path leads, if at most `links` links may be followed on the way. -/
structure Located (links : Nat) where
  /-- The place the path leads to. -/
  location : Location
  /-- What is there; `none` if there is nothing, but the directory around it exists. -/
  node? : Option Node
  /-- How many more links may be followed. -/
  left : Nat
  /-- Following links leaves fewer of them. -/
  left_le : left ≤ links

/-- The same place when more links may be followed. -/
def Located.weaken {links more : Nat} (located : Located links) (h : links ≤ more) :
    Located more :=
  { located with left_le := Nat.le_trans located.left_le h }

namespace Path

/-- The names of a path that are looked up one after the other. A slash at the end asks for a
directory, like a final `.`. -/
def lookups (path : Path) : List Text :=
  let names := (Text.splitOn '/' path.text).filter (· ≠ [])
  if path.text.getLast? = some '/' then names ++ [['.']] else names

/-- The path of the directory in which the last name of a path is looked up. -/
def around (path : Path) : Path :=
  let before := (path.text.reverse.dropWhile (· = '/')).dropWhile (· ≠ '/')
  if before = [] then ⟨['.']⟩ else ⟨before.reverse⟩

end Path

namespace Disk

/-- The greatest number of links that a path may lead through. -/
def linkLimit : Nat := 40

/-- The greatest number of bytes in a name. -/
def nameLimit : Nat := 255

/-- The number of bytes from which on a path is too long. -/
def pathLimit : Nat := 4096

/-- Looks up names one after the other from a place. A link at the very end is followed only if
`followLast`. -/
def follow (disk : Disk) (links : Nat) (here : Location) (names : List Text)
    (followLast : Bool) : Except SystemError (Located links) :=
  match names with
  | [] => .ok ⟨here, disk.root.at? here, links, Nat.le_refl links⟩
  | name :: names =>
      match disk.root.at? here with
      | none => .error .notFound
      | some (.directory children) =>
          if name = ['.'] then disk.follow links here names followLast
          else if name = ['.', '.'] then disk.follow links here.dropLast names followLast
          else if nameLimit < Text.utf8Size name then .error .nameTooLong
          else
            match Node.child? (.directory children) name with
            | none =>
                if names = [] then .ok ⟨here ++ [name], none, links, Nat.le_refl links⟩
                else .error .notFound
            | some (.link target) =>
                if names = [] && !followLast then
                  .ok ⟨here ++ [name], some (.link target), links, Nat.le_refl links⟩
                else
                  match links with
                  | 0 => .error .tooManyLinks
                  | links + 1 =>
                      let start := if target.isAbsolute then [] else here
                      (disk.follow links start (target.lookups ++ names) followLast).map
                        (·.weaken (Nat.le_succ links))
            | some _ => disk.follow links (here ++ [name]) names followLast
      | some _ => .error .notDirectory
termination_by (links, names.length)

/-- The place from which a path is looked up. -/
def startOf (disk : Disk) (path : Path) : Except SystemError Location :=
  if path.text.contains '\x00' then .error .zeroInPath
  else if path.text = [] then .error .notFound
  else if pathLimit ≤ Text.utf8Size path.text then .error .nameTooLong
  else .ok (if path.isAbsolute then [] else disk.workingDirectory)

/-- Where a path leads. -/
def locate (disk : Disk) (path : Path) (followLast : Bool) :
    Except SystemError (Located linkLimit) := do
  let start ← disk.startOf path
  disk.follow linkLimit start path.lookups followLast

/-- Where a path leads that is to be written to, looked up from a place. The directory around it has
to exist. A path that ends in a slash or in dots means a directory, whatever is there, and so does a
link to such a path. -/
def locateOutput (disk : Disk) (links : Nat) (start : Location) (path : Path) :
    Except SystemError (Located links) := do
  let last := path.lookups.getLast?
  if last = some ['.'] || last = some ['.', '.'] then
    discard (disk.follow links start path.around.lookups true)
    throw .isDirectory
  let located ← disk.follow links start path.lookups false
  match located.node? with
  | some (.link target) =>
      match left : located.left with
      | 0 => throw .tooManyLinks
      | remaining + 1 =>
          have fewer : remaining < links := by
            have := located.left_le
            omega
          let start := if target.isAbsolute then [] else located.location.dropLast
          return (← disk.locateOutput remaining start target).weaken (Nat.le_of_lt fewer)
  | _ => return located
termination_by links

/-- The content of the file at a path. -/
def read (disk : Disk) (path : Path) : Except SystemError Bytes := do
  match (← disk.locate path true).node? with
  | some (.file content _) => return content
  | some .device => return []
  | some (.directory _) => throw .isDirectory
  | some (.link _) | none => throw .notFound

/-- The text of the file at a path. -/
def readText (disk : Disk) (path : Path) : Except SystemError Text := do
  match Utf8.decode? (← disk.read path) with
  | some text => return text
  | none => throw .illFormedText

/-- Whether a path leads to something. -/
def isPresent (disk : Disk) (path : Path) : Bool :=
  match disk.locate path true with
  | .ok located => located.node?.isSome
  | .error _ => false

/-- The disk with another node at a place. -/
def setAt (disk : Disk) (location : Location) (node : Option Node) : Disk :=
  { disk with root := disk.root.setAt node location }

/-- The disk with a file at a path, written over the one that is there. -/
def write (disk : Disk) (path : Path) (content : Bytes) (modified : Int) :
    Except SystemError Disk := do
  let start ← disk.startOf path
  let located ← disk.locateOutput linkLimit start path
  match located.node? with
  | some (.directory _) => throw .isDirectory
  | some .device => return disk
  | _ => return disk.setAt located.location (some (.file content modified))

/-- The disk with a directory at a path and at every path on the way to it. -/
def makeDirectories (disk : Disk) (path : Path) : Except SystemError Disk :=
  let start := if path.isAbsolute then ['/'] else []
  let names := path.lookups
  (List.range names.length).foldlM (fun disk count => do
    let around : Path := ⟨start ++ ['/'].intercalate (names.take (count + 1))⟩
    let located ← disk.locate around true
    match located.node? with
    | some _ => return disk
    | none => return disk.setAt located.location (some (.directory []))) disk

/-- The disk without what is at a path. -/
def remove (disk : Disk) (path : Path) : Except SystemError Disk := do
  let located ← disk.locate path false
  return disk.setAt located.location none

/-- The disk with another modification time for the file at a path. -/
def touch (disk : Disk) (path : Path) (modified : Int) : Except SystemError Disk := do
  let located ← disk.locate path true
  match located.node? with
  | some (.file content _) =>
      return disk.setAt located.location (some (.file content modified))
  | _ => return disk

/-- The disk with a link at a path. -/
def link (disk : Disk) (path target : Path) : Except SystemError Disk := do
  let located ← disk.locate path false
  return disk.setAt located.location (some (.link target))

/-- A modification time in whole milliseconds; a time before 1970 counts as its start. -/
def wholeMilliseconds (modified : Int) : Nat :=
  modified.toNat / 1000

/-- The versions of all regular files. -/
def versions (disk : Disk) : List FileEntry :=
  (disk.root.files []).map fun (location, modified) =>
    ⟨location.path, wholeMilliseconds modified⟩

mutual

/-- The places of the regular files at or below a node, in the order of a walk. The walk came to
the node by `route`, may follow `links` more links, and is inside the directories `around`,
innermost first. -/
def walkNode (disk : Disk) (links : Nat) (around : List (Path × Location)) (route : Path)
    (location : Location) (node : Node) : Except WalkFailure (List Location) :=
  match node with
  | .file _ _ => .ok [location]
  | .device => .ok []
  | .directory children => disk.walkChildren links ((route, location) :: around) children
  | .link target =>
      match links with
      | 0 => .error (.refused route .tooManyLinks)
      | links + 1 =>
          let start := if target.isAbsolute then [] else location.dropLast
          match disk.follow links start target.lookups true with
          | .error cause => .error (.refused route cause)
          | .ok ⟨target, node?, left, _left_le⟩ =>
              match node? with
              | none => .error (.refused route .notFound)
              | some node =>
                  match around.find? (·.2 = target) with
                  | some (ancestor, _) => .error (.loop route ancestor)
                  | none => disk.walkNode left around route target node
termination_by (links, sizeOf node)

/-- The places of the regular files at or below the children of the innermost directory around. -/
def walkChildren (disk : Disk) (links : Nat) (around : List (Path × Location))
    (children : List (Text × Node)) : Except WalkFailure (List Location) :=
  match children with
  | [] => .ok []
  | (name, child) :: children => do
      let (route, location) := around.headD (Path.empty, [])
      let first ← disk.walkNode links around (route.join ⟨name⟩) (location ++ [name]) child
      let others ← disk.walkChildren links around children
      return first ++ others
termination_by (links, sizeOf children)

end

/-- The places of the regular files at or below a path, in the order of a walk. -/
def walk (disk : Disk) (path : Path) : Except WalkFailure (List Location) :=
  match disk.locate path false with
  | .error cause => .error (.refused path cause)
  | .ok located =>
      match located.node? with
      | none => .error (.refused path .notFound)
      | some node => disk.walkNode located.left [] path located.location node

/-- The version of the regular file at a place. -/
def versionAt? (disk : Disk) (location : Location) : Option FileEntry :=
  disk.versions.find? (·.path = location.path)

/-- The disk as a source of files. -/
def source (disk : Disk) : FileSource where
  walk path :=
    match disk.walk path with
    | .error failure => .error (.walk failure)
    | .ok locations => .ok (locations.filterMap disk.versionAt?)
  read path :=
    match disk.read path with
    | .error cause =>
        .error ⟨.read, path, "loading view file".toList, "reader".toList, cause⟩
    | .ok bytes => .ok bytes
  versions := disk.versions
  mem_versions := by
    intro path entries entry walked entry_mem
    split at walked
    · simp at walked
    · cases walked
      simp only [List.mem_filterMap] at entry_mem
      obtain ⟨location, _, found⟩ := entry_mem
      exact List.mem_of_find?_eq_some found
  counts := true

end Disk

end Pageweave
