import Mathlib.Data.Char
import Mathlib.Data.List.Lex
import Pageweave.Proofs.Course
import Pageweave.Proofs.Writing

/-!
# Canonical paths

A place in a file tree has one canonical path, the absolute one along the directories around it.
In a proper tree, where the names in each directory are in their order and can be told apart in a
path, no two places share their canonical path. A file is read at its canonical path, and is found
by it among all versions.
-/

namespace Pageweave

/-! ## Proper trees -/

namespace Node

/-- A name that something in a directory can have. -/
structure IsEntryName (name : Text) : Prop extends Path.IsName name where
  noZero : '\x00' ∉ name
  short : Text.utf8Size name ≤ Disk.nameLimit

theorem isEntryName_singleton {c : Char} (noSlash : c ≠ '/') (noDot : c ≠ '.')
    (noZero : c ≠ '\x00') : IsEntryName [c] where
  nonempty := List.cons_ne_nil c []
  noSlash := by simpa using noSlash.symm
  ne_current := by simpa using noDot
  ne_parent := by simp
  noZero := by simpa using noZero.symm
  short := by
    have bound := c.utf8Size_le_four
    simp only [Text.utf8Size, List.foldl_cons, List.foldl_nil, Disk.nameLimit]
    omega

/-- The entries of a directory are in the order of their names, each name once, and the names are
ones that entries can have. -/
structure AreEntries (children : List (Text × Node)) : Prop where
  ascending : children.Pairwise fun first second => first.1 < second.1
  named : ∀ entry ∈ children, IsEntryName entry.1

/-- All directories at or below a node are in order. -/
def IsProper (node : Node) : Prop :=
  ∀ location children, node.at? location = some (directory children) → AreEntries children

variable {node child : Node} {name : Text} {children : List (Text × Node)}
  {location place : Location} {modified : Int}

theorem mem_of_child? (found : (directory children).child? name = some child) :
    (name, child) ∈ children := by
  rw [child?, Node.children, Option.map_eq_some_iff] at found
  rcases found with ⟨entry, found, rfl⟩
  have named : entry.1 = name := by simpa using List.find?_some found
  exact named ▸ List.mem_of_find?_eq_some found

/-- In a directory in order, what is found under a name is what stands there. -/
theorem AreEntries.child?_eq_some_iff (entries : AreEntries children) :
    (directory children).child? name = some child ↔ (name, child) ∈ children := by
  have ascending := entries.ascending
  clear entries
  simp only [child?, Node.children]
  induction children with
  | nil => simp
  | cons first children ih =>
      rcases List.pairwise_cons.mp ascending with ⟨least, ascending⟩
      rw [List.find?_cons]
      split
      · next same =>
          rw [decide_eq_true_eq] at same
          subst same
          have absent : (first.1, child) ∉ children :=
            fun entry_mem => lt_irrefl first.1 (least (first.1, child) entry_mem)
          simp [absent, Prod.ext_iff, eq_comm]
      · next differ =>
          rw [decide_eq_false_iff_not] at differ
          have others := ih ascending
          simp [others, Prod.ext_iff, Ne.symm differ]

theorem IsProper.of_child? (proper : node.IsProper) (found : node.child? name = some child) :
    child.IsProper := by
  intro location children within
  apply proper (name :: location) children
  rw [at?_cons_of_child? found, within]

/-- A node without directories at or below it is proper. -/
theorem isProper_of_flat (flat : ¬IsDirectory (some node)) : node.IsProper := by
  intro location children within
  cases location with
  | nil => exact absurd ⟨children, within⟩ flat
  | cons name location =>
      rw [at?_eq_none flat (List.cons_ne_nil name location)] at within
      cases within

theorem isProper_directory (entries : AreEntries children)
    (proper : ∀ entry ∈ children, entry.2.IsProper) : (directory children).IsProper := by
  intro location children' within
  cases location with
  | nil =>
      cases within
      exact entries
  | cons name location =>
      cases entered : (directory children).child? name with
      | none => simp [at?, entered] at within
      | some child =>
          rw [at?_cons_of_child? entered] at within
          exact proper _ (mem_of_child? entered) location children' within

/-- The names that lead to a node can be told apart in a path. -/
theorem IsProper.isEntryName (proper : node.IsProper) (found : node.at? location = some child) :
    ∀ name ∈ location, IsEntryName name := by
  induction location generalizing node with
  | nil => simp
  | cons first location ih =>
      intro name name_mem
      cases entered : node.child? first with
      | none => simp [at?, entered] at found
      | some next =>
          rw [at?_cons_of_child? entered] at found
          rcases List.mem_cons.mp name_mem with rfl | name_mem
          · rcases isDirectory_of_child? entered with ⟨children, node_eq⟩
            cases node_eq
            have entries := proper [] children rfl
            exact entries.named _ (mem_of_child? entered)
          · exact ih (proper.of_child? entered) found name name_mem

theorem mem_filesOfChildren_iff :
    (place, modified) ∈ filesOfChildren location children ↔
      ∃ entry ∈ children, (place, modified) ∈ files (location ++ [entry.1]) entry.2 := by
  induction children with
  | nil => simp [filesOfChildren]
  | cons first children ih =>
      rcases first with ⟨name, child⟩
      rw [filesOfChildren, List.mem_append, ih, List.exists_mem_cons_iff]

/-- What is listed as a regular file below a proper node is one. -/
theorem IsProper.of_mem_files {node : Node} {location : Location} (proper : node.IsProper)
    (listed : (place, modified) ∈ node.files location) :
    ∃ below content, place = location ++ below ∧ node.at? below = some (file content modified) := by
  cases shape : node with
  | file content modified' =>
      rw [shape, files, List.mem_singleton, Prod.mk.injEq] at listed
      exact ⟨[], content, by simp [listed.1], by rw [at?, listed.2]⟩
  | directory children =>
      rw [shape] at proper listed
      rw [files, mem_filesOfChildren_iff] at listed
      rcases listed with ⟨⟨name, child⟩, entry_mem, listed⟩
      have entered := (proper [] children rfl).child?_eq_some_iff.mpr entry_mem
      have smaller := List.sizeOf_lt_of_mem entry_mem
      rcases IsProper.of_mem_files (proper.of_child? entered) listed with
        ⟨below, content, place_eq, found⟩
      refine ⟨name :: below, content, ?_, ?_⟩
      · simp [place_eq]
      · rw [at?_cons_of_child? entered, found]
  | link _ | device => simp [shape, files] at listed
termination_by sizeOf node
decreasing_by
  simp only [shape, Prod.mk.sizeOf_spec, directory.sizeOf_spec] at smaller ⊢
  omega

/-- Every regular file below a node is listed. -/
theorem mem_files {content : Bytes} {below : Location}
    (found : node.at? below = some (file content modified)) :
    (location ++ below, modified) ∈ node.files location := by
  induction below generalizing node location with
  | nil =>
      cases found
      simp [files]
  | cons name below ih =>
      cases entered : node.child? name with
      | none => simp [at?, entered] at found
      | some child =>
          rw [at?_cons_of_child? entered] at found
          rcases isDirectory_of_child? entered with ⟨children, node_eq⟩
          cases node_eq
          rw [files, mem_filesOfChildren_iff]
          have listed : (location ++ [name] ++ below, modified) ∈ _ := ih found
          rw [List.append_assoc, List.singleton_append] at listed
          exact ⟨(name, child), mem_of_child? entered, listed⟩

end Node

/-! ## Paths of places -/

namespace Location

variable {location other : Location}

theorem path_of_ne_nil (below : location ≠ []) :
    location.path = ⟨location.flatMap fun name => '/' :: name⟩ := by
  cases location with
  | nil => exact absurd rfl below
  | cons name location => rfl

theorem pieces_path (names : ∀ name ∈ location, Path.IsName name) :
    location.path.pieces = location := by
  have written : Path.pieces ⟨location.flatMap fun name => '/' :: name⟩ = location := by
    induction location using List.reverseRecOn with
    | nil => exact Path.pieces_nil
    | append_singleton location name ih =>
        have isName := names name (by simp)
        have last : Path.pieces ⟨name⟩ = [name] := by
          simp [Path.pieces, Text.splitOn_of_not_mem isName.noSlash, isName.nonempty]
        rw [List.flatMap_append, List.flatMap_singleton, Path.pieces_append_slash, last,
          ih fun other other_mem => names other (by simp [other_mem])]
  cases location with
  | nil => rfl
  | cons name location => exact written

/-- Different places have different canonical paths. -/
theorem path_injective (names : ∀ name ∈ location, Path.IsName name)
    (names' : ∀ name ∈ other, Path.IsName name) (same : location.path = other.path) :
    location = other := by
  rw [← pieces_path names, same, pieces_path names']

/-- The names that are looked up along a canonical path are those that lead to its place. -/
theorem lookups_path (names : ∀ name ∈ location, Path.IsName name) (below : location ≠ []) :
    location.path.lookups = location := by
  have noSlash : location.path.text.getLast? ≠ some '/' := by
    rw [path_of_ne_nil below]
    rcases List.eq_nil_or_concat location with rfl | ⟨around, name, rfl⟩
    · exact absurd rfl below
    · have isName := names name (by simp)
      intro slash
      rw [List.concat_eq_append, List.flatMap_append, List.flatMap_singleton,
        List.getLast?_append_of_ne_nil _ (List.cons_ne_nil _ _),
        List.getLast?_cons_of_ne_nil isName.nonempty] at slash
      exact isName.noSlash (List.mem_of_getLast? slash)
  rw [Path.lookups, if_neg noSlash]
  exact pieces_path names

theorem isAbsolute_path (location : Location) : location.path.isAbsolute = true := by
  cases location with
  | nil => rfl
  | cons name location => rfl

theorem not_mem_path {c : Char} (differs : c ≠ '/') (absent : ∀ name ∈ location, c ∉ name) :
    c ∉ location.path.text := by
  cases location with
  | nil => simpa [path, Path.rootDirectory] using differs
  | cons name location =>
      rw [path_of_ne_nil (List.cons_ne_nil _ _), List.mem_flatMap]
      rintro ⟨other, other_mem, c_mem⟩
      rcases List.mem_cons.mp c_mem with slash | c_mem
      · exact differs slash
      · exact absent other other_mem c_mem

end Location

/-! ## Reading at canonical paths -/

namespace Disk

open Node (IsDirectory IsNoLink)

variable {disk : Disk} {links : Nat} {here location : Location} {names : List Text} {node : Node}

theorem isPlain_of_isEntryName {name : Text} (isName : Node.IsEntryName name) : IsPlain name :=
  ⟨isName.ne_current, isName.ne_parent, isName.short⟩

/-- Down from a place, along names that are all there, leads a way without links. -/
theorem Way.down (plain : ∀ name ∈ names, IsPlain name) (noLink : IsNoLink (some node))
    (found : disk.root.at? (here ++ names) = some node) :
    disk.Way links here names (here ++ names) (some node) := by
  induction names generalizing here with
  | nil =>
      rw [← found, List.append_nil]
      exact .arrived
  | cons name names ih =>
      have step : here ++ name :: names = here ++ [name] ++ names := by simp
      rw [step] at found ⊢
      have found' := found
      rw [Node.at?_append, Option.bind_eq_some_iff] at found'
      rcases found' with ⟨next, entered, onward⟩
      have entered' := entered
      rw [Node.at?_concat, Option.bind_eq_some_iff] at entered'
      rcases entered' with ⟨around, within, child⟩
      rcases Node.isDirectory_of_child? child with ⟨children, around_eq⟩
      have noLink' : IsNoLink (some next) := by
        cases names with
        | nil =>
            cases onward
            exact noLink
        | cons other names =>
            rintro target ⟨⟩
            simp [Node.at?, Node.child?, Node.children] at onward
      rw [around_eq] at within
      exact .on ⟨children, within⟩ (plain name List.mem_cons_self) entered noLink'
        (ih (fun other other_mem => plain other (List.mem_cons_of_mem name other_mem)) found)

/-- A file in a proper tree is read at its canonical path, if this is not too long. -/
theorem read_path {content : Bytes} {modified : Int} (proper : disk.root.IsProper)
    (rooted : IsDirectory (some disk.root))
    (found : disk.root.at? location = some (.file content modified))
    (short : Text.utf8Size location.path.text < pathLimit) :
    disk.read location.path = .ok content := by
  have names := proper.isEntryName found
  have isNames : ∀ name ∈ location, Path.IsName name :=
    fun name name_mem => (names name name_mem).toIsName
  have below : location ≠ [] := by
    rintro rfl
    rcases rooted with ⟨children, root_eq⟩
    cases found.symm.trans root_eq
  have started : disk.startOf location.path = .ok [] := by
    have nonempty : location.path.text ≠ [] := by
      intro empty
      have absolute := Location.isAbsolute_path location
      simp [Path.isAbsolute, empty] at absolute
    have noZero := Location.not_mem_path (by decide)
      fun name name_mem => (names name name_mem).noZero
    rw [startOf, if_neg (by simpa using noZero), if_neg nonempty, if_neg (Nat.not_le.mpr short),
      if_pos (Location.isAbsolute_path location)]
  have way : disk.Way linkLimit [] location.path.lookups location
      (some (.file content modified)) := by
    rw [Location.lookups_path isNames below]
    exact Way.down (fun name name_mem => isPlain_of_isEntryName (names name name_mem))
      (by simp [IsNoLink]) found
  rcases locate_of_way started way with ⟨located, ended, node_eq⟩
  simp only [Disk.read, ended, bind, Except.bind, node_eq]
  rfl

/-- A file in a proper tree is found by its canonical path among all versions. -/
theorem versionAt?_eq {content : Bytes} {modified : Int} (proper : disk.root.IsProper)
    (found : disk.root.at? location = some (.file content modified)) :
    disk.versionAt? location = some ⟨location.path, wholeMilliseconds modified⟩ := by
  have listed : ⟨location.path, wholeMilliseconds modified⟩ ∈ disk.versions :=
    List.mem_map.mpr ⟨([] ++ location, modified), Node.mem_files found, rfl⟩
  cases outcome : disk.versionAt? location with
  | none =>
      have absent := List.find?_eq_none.mp outcome _ listed
      simp at absent
  | some entry =>
      have same : entry.path = location.path := by
        simpa using List.find?_some outcome
      rcases List.mem_map.mp (List.mem_of_find?_eq_some outcome) with
        ⟨⟨place, modified'⟩, file_mem, rfl⟩
      rcases proper.of_mem_files file_mem with ⟨below, content', place_eq, found'⟩
      rw [List.nil_append] at place_eq
      subst place_eq
      have place_eq := Location.path_injective
        (fun name name_mem => (proper.isEntryName found' name name_mem).toIsName)
        (fun name name_mem => (proper.isEntryName found name name_mem).toIsName) same
      subst place_eq
      cases found.symm.trans found'
      rfl

end Disk

end Pageweave
