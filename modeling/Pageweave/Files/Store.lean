import Pageweave.Files.Disk
import Pageweave.Files.Flat

/-!
# File stores

Views are loaded either from a flat store or from a disk. This file gives both the same operations
for changing files. Relative paths start from the root directory in a flat store and from the
working directory on a disk. A change that is not possible leaves the store as it is.
-/

namespace Pageweave

/-- Where the files of views are kept. -/
inductive Store where
  /-- In a flat list. -/
  | flat (store : FlatStore)
  /-- On a disk. -/
  | disk (disk : Disk)

/-- What can be put at a path. -/
inductive Entry where
  /-- A file with its content, its modification time in microseconds since the start of 1970, and
  the reason why it cannot be read, if it cannot. -/
  | file (content : Bytes) (modified : Int) (refusal : Option SystemError)
  /-- A directory. -/
  | directory
  /-- A symbolic link. -/
  | link (target : Path)

namespace Disk

/-- The disk with an entry at a path and the directories on the way to it. -/
def put (disk : Disk) (path : Path) (entry : Entry) : Except SystemError Disk := do
  let disk ← match path.parent? with
    | some around => disk.makeDirectories around
    | none => pure disk
  match entry with
  | .file content modified _ => disk.write path content modified
  | .directory => disk.makeDirectories path
  | .link target => disk.link path target

end Disk

namespace Store

/-- The store as a source of files. -/
def source : Store → FileSource
  | flat store => store.source
  | disk files => files.source

/-- The directory that relative paths start from. -/
def base : Store → Path
  | flat _ => Path.rootDirectory
  | disk files => files.workingDirectory.path

/-- The store with an entry at a path. A flat store keeps nothing but files. -/
def put (path : Path) (entry : Entry) : Store → Store
  | flat store =>
      match entry with
      | .file content modified refusal =>
          flat (store.write {
            path := Path.rootDirectory.join path
            content
            modified := Disk.wholeMilliseconds modified
            refusal })
      | .directory | .link _ => flat store
  | disk before => disk ((before.put path entry).toOption.getD before)

/-- The store without what is at a path or below it. -/
def remove (path : Path) : Store → Store
  | flat store => flat (store.remove (Path.rootDirectory.join path))
  | disk before => disk ((before.remove path).toOption.getD before)

/-- The store with another modification time for the file at a path. -/
def touch (path : Path) (modified : Int) : Store → Store
  | flat store =>
      flat (store.touch (Path.rootDirectory.join path) (Disk.wholeMilliseconds modified))
  | disk before => disk ((before.touch path modified).toOption.getD before)

end Store

end Pageweave
