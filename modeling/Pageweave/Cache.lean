import Pageweave.Path.Basic

/-!
# Caches of processed content

A version of a file is known by its path and its modification time. Its key is the path followed
by the time, so a file that changes gets a new key. A cache keeps the processed content under each
key for good and counts how often it was asked with and without success. A list of seen keys says
which versions have been expanded in one chain of includes.
-/

namespace Pageweave

/-- A version of a file: where it is and when it was last modified. -/
structure FileEntry where
  /-- The absolute path of the file, with links followed. -/
  path : Path
  /-- The time of the last modification, in milliseconds since the start of 1970. -/
  modified : Nat
deriving DecidableEq, Repr

/-- The key of a file version. -/
structure Key where
  /-- The characters of the key. -/
  text : Text
deriving DecidableEq, Repr

/-- The key of a file version: its path followed by the digits of its modification time. -/
def FileEntry.key (entry : FileEntry) : Key :=
  ⟨entry.path.text ++ Text.ofNat entry.modified⟩

/-- Processed contents under their keys. -/
structure Cache where
  /-- The keys with their contents, each key once, latest first. -/
  entries : List (Key × Text) := []
  /-- How often a key was asked for and found. -/
  hits : Nat := 0
  /-- How often a key was asked for and not found. -/
  misses : Nat := 0
deriving DecidableEq, Repr

namespace Cache

/-- The content under a key. -/
def find? (cache : Cache) (key : Key) : Option Text :=
  (cache.entries.find? (·.1 = key)).map (·.2)

/-- Whether there is content under a key. -/
def contains (cache : Cache) (key : Key) : Bool :=
  (cache.find? key).isSome

/-- The content under a key, and the cache with the question counted. -/
def ask (cache : Cache) (key : Key) : Option Text × Cache :=
  match cache.find? key with
  | some content => (some content, { cache with hits := cache.hits + 1 })
  | none => (none, { cache with misses := cache.misses + 1 })

/-- The cache with `content` under `key`, in place of what was there. -/
def insert (cache : Cache) (key : Key) (content : Text) : Cache :=
  { cache with entries := (key, content) :: cache.entries.filter (·.1 ≠ key) }

/-- The number of keys. -/
def size (cache : Cache) : Nat :=
  cache.entries.length

@[simp]
theorem find?_insert_self (cache : Cache) (key : Key) (content : Text) :
    (cache.insert key content).find? key = some content := by
  simp [find?, insert]

theorem find?_insert_of_ne {key other : Key} (differs : other ≠ key) (cache : Cache)
    (content : Text) : (cache.insert key content).find? other = cache.find? other := by
  simp only [find?, insert, List.find?_cons, Ne.symm differs, decide_false, List.find?_filter]
  congr 2
  funext entry
  by_cases same : entry.1 = other
  · simp [same, differs]
  · simp [same]

end Cache

/-- The keys of the versions expanded so far, in their order and each once. -/
structure SeenKeys where
  /-- The keys, earliest first. -/
  keys : List Key := []
deriving DecidableEq, Repr

namespace SeenKeys

/-- Whether a key is among the seen ones. -/
def contains (seen : SeenKeys) (key : Key) : Bool :=
  seen.keys.contains key

/-- The seen keys with one more at the end, unless it is there already. -/
def insert (seen : SeenKeys) (key : Key) : SeenKeys :=
  if seen.contains key then seen else ⟨seen.keys ++ [key]⟩

end SeenKeys

end Pageweave
