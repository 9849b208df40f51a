import Mathlib.Data.List.Basic
import Pageweave.Files.Disk

/-!
# What is written is read

A file is written where its path leads: directories on the way are entered, links are followed, and
at the end there is a file to be replaced or a name that nothing has. Writing looks the path up
differently from reading, since nothing may be there yet; the two come to the same place. This file
shows that what has been written to a path is read at it.

A `Way` is a path followed to its end. Writing changes nothing on it but the end: the directories
that are entered stay directories, even if their contents differ, and the links are not touched.
-/

namespace Pageweave

theorem exists_of_bind_eq_ok {ε α β : Type} {x : Except ε α} {f : α → Except ε β} {result : β}
    (succeeds : (x >>= f) = .ok result) : ∃ value, x = .ok value ∧ f value = .ok result := by
  cases x with
  | error failure => cases succeeds
  | ok value => exact ⟨value, rfl, succeeds⟩

/-- A text that does not end in the separator has a piece with something in it. -/
theorem Text.exists_mem_splitOn {separator : Char} {text : Text} (nonempty : text ≠ [])
    (last : text.getLast? ≠ some separator) :
    ∃ piece ∈ Text.splitOn separator text, piece ≠ [] := by
  induction text with
  | nil => exact absurd rfl nonempty
  | cons c text ih =>
      rw [Text.splitOn]
      split
      · next same =>
          have more : text ≠ [] := by
            rintro rfl
            simp [same] at last
          rw [List.getLast?_cons_of_ne_nil more] at last
          rcases ih more last with ⟨piece, piece_mem, filled⟩
          exact ⟨piece, List.mem_cons_of_mem _ piece_mem, filled⟩
      · split
        · exact ⟨[c], by simp, by simp⟩
        · exact ⟨_, List.mem_cons_self, by simp⟩

/-- A path that is not empty has names to look up. -/
theorem Path.lookups_ne_nil {path : Path} (nonempty : path.text ≠ []) : path.lookups ≠ [] := by
  rw [Path.lookups]
  split
  · simp
  · next last =>
      rcases Text.exists_mem_splitOn nonempty last with ⟨piece, piece_mem, filled⟩
      exact List.ne_nil_of_mem (List.mem_filter.mpr ⟨piece_mem, by simpa using filled⟩)

/-! ## Trees with one node changed -/

namespace Node

variable {name other : Text} {node new : Node} {children : List (Text × Node)}
  {around location place : Location}

/-- There is a directory. -/
def IsDirectory (node? : Option Node) : Prop :=
  ∃ children, node? = some (directory children)

/-- What is there is no link. -/
def IsNoLink (node? : Option Node) : Prop :=
  ∀ target, node? ≠ some (link target)

theorem isNoLink_or_eq_link (node : Node) :
    IsNoLink (some node) ∨ ∃ target, node = link target := by
  cases node <;> simp [IsNoLink]

theorem at?_append (node : Node) (around below : Location) :
    node.at? (around ++ below) = (node.at? around).bind (·.at? below) := by
  induction around generalizing node with
  | nil => rfl
  | cons first around ih =>
      rw [List.cons_append, at?, at?]
      cases node.child? first with
      | none => rfl
      | some child => exact ih child

theorem at?_concat (node : Node) (around : Location) (name : Text) :
    node.at? (around ++ [name]) = (node.at? around).bind (·.child? name) := by
  rw [at?_append]
  congr
  funext within
  rw [at?]
  cases within.child? name <;> rfl

/-- What stands in a directory is a child of it. -/
theorem at?_concat_of_directory (within : node.at? around = some (directory children))
    (name : Text) : node.at? (around ++ [name]) = (directory children).child? name := by
  rw [at?_concat, within, Option.bind_some]

theorem child?_setChild_self (name : Text) (new : Node) (children : List (Text × Node)) :
    (directory (setChild name (some new) children)).child? name = some new := by
  induction children with
  | nil => simp [setChild, child?, Node.children]
  | cons head children ih =>
      rcases head with ⟨other, present⟩
      simp only [child?, Node.children] at ih ⊢
      rw [setChild]
      split
      · simp
      · next differ =>
          split
          · simp
          · simpa [Ne.symm differ] using ih

theorem child?_setChild_of_ne (differs : other ≠ name) (new : Node)
    (children : List (Text × Node)) :
    (directory (setChild name (some new) children)).child? other =
      (directory children).child? other := by
  induction children with
  | nil => simp [setChild, child?, Node.children, Ne.symm differs]
  | cons head children ih =>
      rcases head with ⟨third, present⟩
      simp only [child?, Node.children] at ih ⊢
      rw [setChild]
      split
      · next same =>
          subst same
          simp [Ne.symm differs]
      · split
        · simp [Ne.symm differs]
        · simp only [List.find?_cons]
          split
          · rfl
          · exact ih

/-- Only directories have children. -/
theorem isDirectory_of_child? {child : Node} (found : node.child? name = some child) :
    IsDirectory (some node) := by
  cases node with
  | directory children => exact ⟨children, rfl⟩
  | file _ _ | link _ | device => simp [child?, Node.children] at found

theorem at?_cons_of_child? {first child : Node} (found : first.child? name = some child)
    (location : Location) : first.at? (name :: location) = child.at? location := by
  rw [at?, found]

theorem at?_cons_of_ne (differs : other ≠ name) (new : Node) (children : List (Text × Node))
    (location : Location) :
    (directory (setChild name (some new) children)).at? (other :: location) =
      (directory children).at? (other :: location) := by
  rw [at?, at?, child?_setChild_of_ne differs]

/-- Below anything but a directory there is nothing. -/
theorem at?_eq_none (flat : ¬IsDirectory (some node)) (below : location ≠ []) :
    node.at? location = none := by
  cases location with
  | nil => exact absurd rfl below
  | cons name location =>
      cases found : node.child? name with
      | none => rw [at?, found]
      | some child => exact absurd (isDirectory_of_child? found) flat

/-- Setting a node below a child changes that child. -/
theorem setAt_cons_concat {child : Node} (found : node.child? name = some child)
    (around : Location) (last : Text) (new : Node) :
    node.setAt (some new) (name :: (around ++ [last])) =
      directory (setChild name (some (child.setAt (some new) (around ++ [last])))
        node.children) := by
  rw [setAt, found]
  simp

/-- Setting a node in a directory makes it stand there. -/
theorem at?_setAt_self (within : IsDirectory (node.at? around)) (name : Text) (new : Node) :
    (node.setAt (some new) (around ++ [name])).at? (around ++ [name]) = some new := by
  induction around generalizing node with
  | nil =>
      rcases within with ⟨children, node_eq⟩
      cases node_eq
      exact at?_cons_of_child? (child?_setChild_self name new children) []
  | cons first around ih =>
      cases found : node.child? first with
      | none => simp [at?, found, IsDirectory] at within
      | some child =>
          rw [at?_cons_of_child? found] at within
          rw [List.cons_append, setAt_cons_concat found,
            at?_cons_of_child? (child?_setChild_self _ _ _)]
          exact ih within

/-- Setting a node in a directory changes nothing elsewhere but the contents of directories. -/
theorem at?_setAt_of_ne (within : IsDirectory (node.at? around))
    (differs : place ≠ around ++ [name]) (old : ¬IsDirectory (node.at? (around ++ [name])))
    (young : ¬IsDirectory (some new)) :
    (node.setAt (some new) (around ++ [name])).at? place = node.at? place ∨
      IsDirectory ((node.setAt (some new) (around ++ [name])).at? place) ∧
        IsDirectory (node.at? place) := by
  induction around generalizing node place with
  | nil =>
      rcases within with ⟨children, node_eq⟩
      cases node_eq
      cases place with
      | nil => exact Or.inr ⟨⟨_, rfl⟩, ⟨_, rfl⟩⟩
      | cons first place =>
          left
          rw [List.nil_append, setAt]
          by_cases same : first = name
          · subst same
            have below : place ≠ [] := by
              rintro rfl
              exact differs rfl
            rw [at?_cons_of_child? (child?_setChild_self _ _ _), at?_eq_none young below]
            cases found : (directory children).child? first with
            | none => rw [at?, found]
            | some child =>
                rw [List.nil_append, at?_cons_of_child? found] at old
                rw [at?_cons_of_child? found, at?_eq_none old below]
          · exact at?_cons_of_ne same new children place
  | cons first around ih =>
      cases found : node.child? first with
      | none => simp [at?, found, IsDirectory] at within
      | some child =>
          rw [at?_cons_of_child? found] at within
          rw [List.cons_append, at?_cons_of_child? found] at old
          rw [List.cons_append, setAt_cons_concat found]
          rcases isDirectory_of_child? found with ⟨children, node_eq⟩
          cases node_eq
          cases place with
          | nil => exact Or.inr ⟨⟨_, rfl⟩, ⟨_, rfl⟩⟩
          | cons other place =>
              by_cases same : other = first
              · subst same
                rw [at?_cons_of_child? (child?_setChild_self _ _ _), at?_cons_of_child? found]
                apply ih within _ old
                rintro rfl
                exact differs rfl
              · exact Or.inl (at?_cons_of_ne same _ children place)

end Node

/-! ## Ways -/

namespace Disk

open Node (IsDirectory IsNoLink)

/-- A name that is looked up as such. -/
structure IsPlain (name : Text) : Prop where
  notHere : name ≠ ['.']
  notUp : name ≠ ['.', '.']
  short : Text.utf8Size name ≤ nameLimit

theorem IsPlain.not_long {name : Text} (plain : IsPlain name) :
    ¬nameLimit < Text.utf8Size name :=
  Nat.not_lt.mpr plain.short

/-- Names looked up one after the other from a place lead to another one, with at most so many links
followed; what is there may be nothing, if a directory is around it. -/
inductive Way (disk : Disk) : Nat → Location → List Text → Location → Option Node → Prop where
  /-- No more names. -/
  | arrived {links : Nat} {here : Location} : Way disk links here [] here (disk.root.at? here)
  /-- The name of the directory itself. -/
  | stay {links : Nat} {here location : Location} {names : List Text} {node? : Option Node} :
      IsDirectory (disk.root.at? here) → Way disk links here names location node? →
      Way disk links here (['.'] :: names) location node?
  /-- The name of the directory around. -/
  | up {links : Nat} {here location : Location} {names : List Text} {node? : Option Node} :
      IsDirectory (disk.root.at? here) → Way disk links here.dropLast names location node? →
      Way disk links here (['.', '.'] :: names) location node?
  /-- A last name that nothing has. -/
  | free {links : Nat} {here : Location} {name : Text} :
      IsDirectory (disk.root.at? here) → IsPlain name →
      disk.root.at? (here ++ [name]) = none → Way disk links here [name] (here ++ [name]) none
  /-- The name of a link. -/
  | through {links : Nat} {here location : Location} {name : Text} {names : List Text}
      {node? : Option Node} {target : Path} :
      IsDirectory (disk.root.at? here) → IsPlain name →
      disk.root.at? (here ++ [name]) = some (.link target) →
      Way disk links (if target.isAbsolute then [] else here) (target.lookups ++ names)
        location node? →
      Way disk (links + 1) here (name :: names) location node?
  /-- The name of anything else. -/
  | on {links : Nat} {here location : Location} {name : Text} {names : List Text} {node : Node}
      {node? : Option Node} :
      IsDirectory (disk.root.at? here) → IsPlain name →
      disk.root.at? (here ++ [name]) = some node → IsNoLink (some node) →
      Way disk links (here ++ [name]) names location node? →
      Way disk links here (name :: names) location node?

variable {disk written : Disk} {links : Nat} {here location : Location} {names : List Text}
  {node? : Option Node} {new : Node}

/-- Following a way leads to its end. -/
theorem Way.follow (way : disk.Way links here names location node?) :
    ∃ left left_le, disk.follow links here names true = .ok ⟨location, node?, left, left_le⟩ := by
  induction way with
  | arrived => exact ⟨_, Nat.le_refl _, by rw [Disk.follow]⟩
  | stay within way ih =>
      rcases within with ⟨children, within⟩
      rcases ih with ⟨left, left_le, followed⟩
      exact ⟨left, left_le, by rw [Disk.follow, within]; simpa using followed⟩
  | up within way ih =>
      rcases within with ⟨children, within⟩
      rcases ih with ⟨left, left_le, followed⟩
      exact ⟨left, left_le, by rw [Disk.follow, within]; simpa using followed⟩
  | free within plain found =>
      rcases within with ⟨children, within⟩
      rw [Node.at?_concat_of_directory within] at found
      refine ⟨_, Nat.le_refl _, ?_⟩
      rw [Disk.follow, within]
      simp [plain.notHere, plain.notUp, plain.not_long, found]
  | through within plain found way ih =>
      rcases within with ⟨children, within⟩
      rcases ih with ⟨left, left_le, followed⟩
      rw [Node.at?_concat_of_directory within] at found
      refine ⟨left, Nat.le_succ_of_le left_le, ?_⟩
      rw [Disk.follow, within]
      simp only [plain.notHere, plain.notUp, plain.not_long, found, if_false, Bool.not_true,
        Bool.and_false, Bool.false_eq_true, followed]
      rfl
  | @on links here location name names node node? within plain found noLink way ih =>
      rcases within with ⟨children, within⟩
      rcases ih with ⟨left, left_le, followed⟩
      rw [Node.at?_concat_of_directory within] at found
      refine ⟨left, left_le, ?_⟩
      rw [Disk.follow, within]
      simp only [plain.notHere, plain.notUp, plain.not_long, found, if_false]
      cases node with
      | link target => exact absurd rfl (noLink target)
      | file _ _ | directory _ | device => exact followed

/-- A way that ends at a file or at nothing leads to a file that is put there. -/
theorem Way.rewritten (way : disk.Way links here names location node?)
    (ends : disk.root.at? location = node?) (old : ¬IsDirectory node?) (noLink : IsNoLink node?)
    (put : written.root.at? location = some new) (young : IsNoLink (some new))
    (elsewhere : ∀ place ≠ location, written.root.at? place = disk.root.at? place ∨
      IsDirectory (written.root.at? place) ∧ IsDirectory (disk.root.at? place)) :
    written.Way links here names location (some new) := by
  have enters : ∀ place, IsDirectory (disk.root.at? place) →
      IsDirectory (written.root.at? place) := by
    intro place within
    rcases elsewhere place (by rintro rfl; exact old (ends ▸ within)) with same | ⟨within', -⟩
    · rwa [same]
    · exact within'
  induction way with
  | arrived =>
      rw [← put]
      exact .arrived
  | stay within way ih => exact .stay (enters _ within) (ih ends old noLink put elsewhere)
  | up within way ih => exact .up (enters _ within) (ih ends old noLink put elsewhere)
  | free within plain found =>
      apply Way.on (enters _ within) plain put young
      rw [← put]
      exact .arrived
  | @through links here location name names node? target within plain found way ih =>
      apply Way.through (enters _ within) plain _ (ih ends old noLink put elsewhere)
      have middle : here ++ [name] ≠ location := by
        rintro rfl
        exact noLink _ (ends ▸ found)
      rcases elsewhere _ middle with same | ⟨-, ⟨children, found'⟩⟩
      · rw [same, found]
      · cases found.symm.trans found'
  | @on links here location name names node node? within plain found noLink' way ih =>
      have way' := ih ends old noLink put elsewhere
      -- The name may be the last one, and then it is the old file that stands there.
      by_cases last : here ++ [name] = location
      · subst last
        exact Way.on (enters _ within) plain put young way'
      · rcases elsewhere _ last with same | ⟨⟨children, within'⟩, -⟩
        · exact Way.on (enters _ within) plain (same.trans found) noLink' way'
        · exact Way.on (enters _ within) plain within' (by simp [IsNoLink]) way'

/-- No link stands at a place, and the place is a directory or has one around it. -/
structure IsSettled (disk : Disk) (location : Location) : Prop where
  noLink : IsNoLink (disk.root.at? location)
  within : IsDirectory (disk.root.at? location) ∨
    ∃ around name, location = around ++ [name] ∧ IsDirectory (disk.root.at? around)

theorem isSettled_of_isDirectory (directory : IsDirectory (disk.root.at? here)) :
    disk.IsSettled here := by
  refine ⟨?_, Or.inl directory⟩
  rcases directory with ⟨children, found⟩
  simp [IsNoLink, found]

theorem isDirectory_dropLast (directory : IsDirectory (disk.root.at? here)) :
    IsDirectory (disk.root.at? here.dropLast) := by
  rcases List.eq_nil_or_concat here with rfl | ⟨around, name, rfl⟩
  · exact directory
  · rcases directory with ⟨children, found⟩
    rw [List.concat_eq_append, Node.at?_concat, Option.bind_eq_some_iff] at found
    rcases found with ⟨middle, found, child⟩
    rw [List.concat_eq_append, List.dropLast_concat, found]
    exact Node.isDirectory_of_child? child

theorem isDirectory_root (directory : IsDirectory (disk.root.at? here)) :
    IsDirectory (disk.root.at? []) := by
  cases here with
  | nil => exact directory
  | cons name here =>
      cases child : disk.root.child? name with
      | none => simp [Node.at?, child, IsDirectory] at directory
      | some _ => exact Node.isDirectory_of_child? child

/-- What looking up a path comes to if a link at its end is not followed: the end of the path, or
such a link, from where the path leads as far as the target of the link leads. -/
inductive Ahead (disk : Disk) (leads : Location → Option Node → Prop) (location : Location)
    (node? : Option Node) (left : Nat) : Prop where
  /-- The end. -/
  | ends : disk.IsSettled location → disk.root.at? location = node? → leads location node? →
      Ahead disk leads location node? left
  /-- A link. -/
  | goesOn {around : Location} {name : Text} {target : Path} :
      location = around ++ [name] → IsDirectory (disk.root.at? around) →
      node? = some (.link target) →
      (∀ remaining further more, left = remaining + 1 →
        disk.Way remaining (if target.isAbsolute then [] else around) target.lookups further more →
        leads further more) →
      Ahead disk leads location node? left

theorem Ahead.mono {leads leads' : Location → Option Node → Prop} {left : Nat}
    (ahead : disk.Ahead leads location node? left)
    (imp : ∀ further more, leads further more → leads' further more) :
    disk.Ahead leads' location node? left := by
  cases ahead with
  | ends settled found way => exact .ends settled found (imp _ _ way)
  | goesOn location_eq within found way =>
      refine .goesOn location_eq within found ?_
      intro remaining further more left_eq beyond
      exact imp _ _ (way remaining further more left_eq beyond)

theorem ahead_of_follow {located : Located links} (settled : names = [] → disk.IsSettled here)
    (followed : disk.follow links here names false = .ok located) :
    disk.Ahead (disk.Way links here names) located.location located.node? located.left := by
  fun_induction Disk.follow disk links here names false with
  | case1 links here =>
      cases followed
      exact .ends (settled rfl) rfl .arrived
  | case3 links here names children found ih =>
      have within : IsDirectory (disk.root.at? here) := ⟨children, found⟩
      apply (ih (fun _ => isSettled_of_isDirectory within) followed).mono
      exact fun _ _ => .stay within
  | case4 links here names children found _ ih =>
      have within : IsDirectory (disk.root.at? here) := ⟨children, found⟩
      have around := isSettled_of_isDirectory (isDirectory_dropLast within)
      apply (ih (fun _ => around) followed).mono
      exact fun _ _ => .up within
  | case6 links here name children found notHere notUp short free =>
      have within : IsDirectory (disk.root.at? here) := ⟨children, found⟩
      have plain : IsPlain name := ⟨notHere, notUp, Nat.not_lt.mp short⟩
      have free' : disk.root.at? (here ++ [name]) = none :=
        (Node.at?_concat_of_directory found name).trans free
      cases followed
      refine .ends ⟨?_, Or.inr ⟨here, name, rfl, within⟩⟩ free' (.free within plain free')
      simp [IsNoLink, free']
  | case8 links here name names children found notHere notUp short target link last =>
      have within : IsDirectory (disk.root.at? here) := ⟨children, found⟩
      have plain : IsPlain name := ⟨notHere, notUp, Nat.not_lt.mp short⟩
      have link' : disk.root.at? (here ++ [name]) = some (.link target) :=
        (Node.at?_concat_of_directory found name).trans link
      cases followed
      refine .goesOn rfl within rfl ?_
      rintro remaining further more rfl beyond
      apply Way.through within plain link'
      simp only [Bool.not_false, Bool.and_true, decide_eq_true_eq] at last
      rwa [last, List.append_nil]
  | case10 here name names children found notHere notUp short target link notLast links start =>
      rename_i ih
      have within : IsDirectory (disk.root.at? here) := ⟨children, found⟩
      have plain : IsPlain name := ⟨notHere, notUp, Nat.not_lt.mp short⟩
      have link' : disk.root.at? (here ++ [name]) = some (.link target) :=
        (Node.at?_concat_of_directory found name).trans link
      simp only [Bool.not_false, Bool.and_true, decide_eq_true_eq] at notLast
      generalize outcome : disk.follow links _ _ _ = inner at followed
      cases inner with
      | error failure => cases followed
      | ok inner =>
          cases followed
          apply (ih (by simp [notLast]) outcome).mono
          exact fun _ _ => .through within plain link'
  | case11 links here name names children found notHere notUp short node noLink child ih =>
      have within : IsDirectory (disk.root.at? here) := ⟨children, found⟩
      have plain : IsPlain name := ⟨notHere, notUp, Nat.not_lt.mp short⟩
      have child' : disk.root.at? (here ++ [name]) = some node :=
        (Node.at?_concat_of_directory found name).trans child
      have noLink' : IsNoLink (some node) := by
        rintro target node_eq
        exact noLink target (Option.some.inj node_eq)
      have settled' : disk.IsSettled (here ++ [name]) :=
        ⟨child' ▸ noLink', Or.inr ⟨here, name, rfl, within⟩⟩
      apply (ih (fun _ => settled') followed).mono
      exact fun _ _ => .on within plain child' noLink'
  | case2 | case5 | case7 | case9 | case12 => cases followed

/-- A path to be written to is looked up without following a link at its end, and if there is one,
its target is looked up in the same way. -/
theorem locateOutput_cases {start : Location} {path : Path} {located : Located links}
    (output : disk.locateOutput links start path = .ok located) :
    ∃ inner : Located links, disk.follow links start path.lookups false = .ok inner ∧
      (IsNoLink inner.node? ∧ located = inner ∨
        ∃ target remaining, inner.node? = some (.link target) ∧ inner.left = remaining + 1 ∧
          ∃ further : Located remaining,
            disk.locateOutput remaining
                (if target.isAbsolute then [] else inner.location.dropLast) target = .ok further ∧
              located.location = further.location ∧ located.node? = further.node?) := by
  rw [locateOutput] at output
  split at output
  · rcases exists_of_bind_eq_ok output with ⟨_, -, thrown⟩
    cases thrown
  · rcases exists_of_bind_eq_ok output with ⟨inner, followed, output⟩
    refine ⟨inner, followed, ?_⟩
    split at output
    · next target link =>
        right
        split at output
        · cases output
        · next remaining left_eq =>
            rcases exists_of_bind_eq_ok output with ⟨further, output', located_eq⟩
            cases located_eq
            exact ⟨target, remaining, link, left_eq, further, output', rfl, rfl⟩
    · next noLink =>
        cases output
        exact Or.inl ⟨noLink, rfl⟩

/-- Where a path is written to is where it leads. -/
theorem way_of_locateOutput {start : Location} {path : Path} {located : Located links}
    (settled : path.lookups = [] → disk.IsSettled start)
    (output : disk.locateOutput links start path = .ok located) :
    disk.IsSettled located.location ∧ disk.root.at? located.location = located.node? ∧
      disk.Way links start path.lookups located.location located.node? := by
  -- Each link at the end of a path uses up one of those that may be followed.
  induction links using Nat.strongRecOn generalizing start path with
  | ind links ih =>
      rcases locateOutput_cases output with ⟨inner, followed, ⟨noLink, rfl⟩ | goesOn⟩
      · cases ahead_of_follow settled followed with
        | ends settled' found way => exact ⟨settled', found, way⟩
        | goesOn _ _ link _ => exact absurd link (noLink _)
      · rcases goesOn with
          ⟨target, remaining, link, left_eq, further, output', location_eq, node_eq⟩
        rw [location_eq, node_eq]
        cases ahead_of_follow settled followed with
        | ends settled' found _ => exact absurd (found.trans link) (settled'.noLink target)
        | @goesOn around name target' inner_eq within link' leads =>
            cases Option.some.inj (link.symm.trans link')
            rw [inner_eq, List.dropLast_concat] at output'
            have fewer : remaining < links := by
              have := inner.left_le
              omega
            have start' : IsDirectory
                (disk.root.at? (if target.isAbsolute then [] else around)) := by
              split
              · exact isDirectory_root within
              · exact within
            rcases ih remaining fewer (fun _ => isSettled_of_isDirectory start') output' with
              ⟨settled', found, way⟩
            exact ⟨settled', found, leads remaining _ _ left_eq way⟩

theorem startOf_eq_ok {path : Path} {start : Location} (started : disk.startOf path = .ok start) :
    path.text ≠ [] := by
  rw [startOf] at started
  split at started
  · cases started
  · split at started
    · cases started
    · assumption

theorem locate_of_way {path : Path} {start : Location} (started : disk.startOf path = .ok start)
    (way : disk.Way linkLimit start path.lookups location node?) :
    ∃ located, disk.locate path true = .ok located ∧ located.node? = node? := by
  rcases way.follow with ⟨left, left_le, followed⟩
  refine ⟨⟨location, node?, left, left_le⟩, ?_, rfl⟩
  rw [locate, started]
  exact followed

/-- A path leads to a device. -/
def LeadsToDevice (disk : Disk) (path : Path) : Prop :=
  ∃ located, disk.locate path true = .ok located ∧ located.node? = some .device

/-- What is written to a path is read at it, unless the path leads to a device, which takes
everything and keeps nothing. -/
theorem read_of_write {path : Path} {content : Bytes} {modified : Int}
    (write : disk.write path content modified = .ok written) :
    written.read path = .ok content ∨ disk.LeadsToDevice path ∧ written = disk := by
  rw [Disk.write] at write
  rcases exists_of_bind_eq_ok write with ⟨start, started, write⟩
  rcases exists_of_bind_eq_ok write with ⟨target, output, write⟩
  rcases way_of_locateOutput (absurd · (Path.lookups_ne_nil (startOf_eq_ok started))) output with
    ⟨settled, found, way⟩
  split at write
  · cases write
  · next device =>
      cases write
      rcases locate_of_way started way with ⟨located, ended, node_eq⟩
      exact Or.inr ⟨⟨located, ended, node_eq.trans device⟩, rfl⟩
  · next notDirectory notDevice =>
      cases write
      left
      have old : ¬IsDirectory target.node? := fun ⟨children, directory⟩ =>
        notDirectory children directory
      rcases settled.within with directory | ⟨around, name, location_eq, within⟩
      · exact absurd (found ▸ directory) old
      have put : (disk.setAt target.location (some (.file content modified))).root.at?
          target.location = some (.file content modified) := by
        rw [location_eq]
        exact Node.at?_setAt_self within name _
      have way' := way.rewritten found old (found ▸ settled.noLink) put (by simp [IsNoLink])
        fun place differs => by
          rw [location_eq] at differs ⊢
          apply Node.at?_setAt_of_ne within differs
          · rwa [← location_eq, found]
          · simp [IsDirectory]
      have started' : (disk.setAt target.location (some (.file content modified))).startOf path =
          .ok start := started
      rcases locate_of_way started' way' with ⟨located, ended, node_eq⟩
      simp only [Disk.read, ended, bind, Except.bind, node_eq]
      rfl

end Disk

end Pageweave
