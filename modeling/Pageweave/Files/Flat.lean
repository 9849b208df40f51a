import Pageweave.Load.Source

/-!
# Flat stores

Files kept in a list, in the order in which they were first written, without directories of their
own. The files below a path are those whose paths begin with its components. A file can be marked
as unreadable.
-/

namespace Pageweave

/-- A file of a flat store. -/
structure FlatFile where
  /-- Where the file is. -/
  path : Path
  /-- What is in it. -/
  content : Bytes
  /-- When it was last modified, in milliseconds since the start of 1970. -/
  modified : Nat
  /-- Why it cannot be read, if it cannot. -/
  refusal : Option SystemError := none

/-- The version of a file that is stored. -/
def FlatFile.entry (file : FlatFile) : FileEntry :=
  ⟨file.path, file.modified⟩

/-- A list of files. -/
structure FlatStore where
  /-- The files in the order in which they were first written. -/
  files : List FlatFile := []

namespace FlatStore

/-- Whether a file is the one at a path. -/
def isAt (path : Path) (file : FlatFile) : Bool :=
  file.path.components = path.components

/-- The store with a file written, in place of the one at its path or at the end. -/
def write (store : FlatStore) (file : FlatFile) : FlatStore :=
  if store.files.any (isAt file.path) then
    ⟨store.files.map fun other => if isAt file.path other then file else other⟩
  else ⟨store.files ++ [file]⟩

/-- The store without the files at or below a path. -/
def remove (store : FlatStore) (path : Path) : FlatStore :=
  ⟨store.files.filter fun file => !file.path.isWithin path⟩

/-- The store with another modification time for the file at a path. -/
def touch (store : FlatStore) (path : Path) (modified : Nat) : FlatStore :=
  ⟨store.files.map fun file => if isAt path file then { file with modified } else file⟩

/-- The versions of the files at or below a path. -/
def entriesWithin (store : FlatStore) (path : Path) : List FileEntry :=
  (store.files.filter fun file => file.path.isWithin path).map FlatFile.entry

/-- The failure to list the files at a path where there are none. -/
def nothingAt (path : Path) : ViewFailure :=
  .file ⟨.walk, path, "walking view path".toList, "memory_walker".toList, .notFound⟩

/-- The failure to read the file at a path. -/
def unreadable (path : Path) (cause : SystemError) : FileFailure :=
  ⟨.read, path, "resolving include".toList, "memory_reader".toList, cause⟩

/-- The store as a source of files. A path without files cannot be listed. -/
def source (store : FlatStore) : FileSource where
  walk path :=
    match store.entriesWithin path with
    | [] => .error (nothingAt path)
    | entries => .ok entries
  read path :=
    match store.files.find? (isAt path) with
    | none => .error (unreadable path .notFound)
    | some file =>
        match file.refusal with
        | some cause => .error (unreadable path cause)
        | none => .ok file.content
  versions := store.files.map FlatFile.entry
  mem_versions := by
    intro path entries entry walked entry_mem
    split at walked
    · simp at walked
    · cases walked
      simp only [entriesWithin, List.mem_map, List.mem_filter] at entry_mem
      obtain ⟨file, ⟨file_mem, _⟩, file_entry⟩ := entry_mem
      exact List.mem_map.mpr ⟨file, file_mem, file_entry⟩

end FlatStore

end Pageweave
