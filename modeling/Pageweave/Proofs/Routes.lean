import Pageweave.Proofs.Canonical

/-!
# Walks and routes

A route leads from a path down along names to a regular file. Links on it are followed, so that
there can be many routes to one file. This file shows that a walk below a path lists the end of each
route, in the order of the names.

The walk and the looking up of a route take the same links, but they take them at different times:
a walk goes on from where it is, and a route is looked up from its start. `lookUp_append` says that
this makes no difference. The walk is then followed case by case: `ListsNode` and `ListsChildren`
say what it does at a node and in a directory, each case has one lemma, and `listsNode` puts them
together by the recursion of the walk.
-/

namespace Pageweave

theorem exists_of_map_eq_ok {ε α β : Type} {x : Except ε α} {f : α → β} {result : β}
    (succeeds : x.map f = .ok result) : ∃ value, x = .ok value ∧ f value = result := by
  cases x with
  | error failure => cases succeeds
  | ok value => exact ⟨value, rfl, Except.ok.inj succeeds⟩

namespace Disk

open Node (IsDirectory IsNoLink)

variable {disk : Disk} {path : Path} {links : Nat} {here place : Location} {name : Text}
  {names more : List Text} {followLast : Bool} {node : Node} {children : List (Text × Node)}

/-! ## Looking up names in parts -/

theorem follow_of_none (absent : disk.root.at? here = none) (more : names ≠ []) :
    disk.follow links here names followLast = .error .notFound := by
  cases names with
  | nil => exact absurd rfl more
  | cons name names => rw [follow, absent]

/-- Names can be looked up in two parts. A link at the end of the first part is followed. -/
theorem follow_append (nonempty : more ≠ []) (names : List Text) :
    disk.follow links here (names ++ more) followLast =
      disk.follow links here names true >>= fun located =>
        (disk.follow located.left located.location more followLast).map
          (·.weaken located.left_le) := by
  have same : ∀ {links : Nat} (outcome : Except SystemError (Located links)),
      outcome.map (·.weaken (Nat.le_refl links)) = outcome := by
    rintro links (_ | _) <;> rfl
  -- The cases are those of looking up the first part, which ends before the names do.
  fun_induction Disk.follow disk links here names true with
  | case1 links here => exact (same _).symm
  | case2 links here name names absent => rw [List.cons_append, follow, absent]; rfl
  | case3 links here names children found ih =>
      rw [List.cons_append, follow, found]
      simpa using ih
  | case4 links here names children found notHere ih =>
      rw [List.cons_append, follow, found]
      simpa using ih
  | case5 links here name names children found notHere notUp long =>
      rw [List.cons_append, follow, found]
      simp [notHere, notUp, long, bind, Except.bind]
  | case6 links here name children found notHere notUp short free =>
      have absent : disk.root.at? (here ++ [name]) = none :=
        (Node.at?_concat_of_directory found name).trans free
      rw [List.singleton_append, follow, found]
      simp [notHere, notUp, short, free, nonempty, bind, Except.bind, Except.map,
        follow_of_none absent nonempty]
  | case7 links here name names children found notHere notUp short free last =>
      rw [List.cons_append, follow, found]
      simp [notHere, notUp, short, free, nonempty, bind, Except.bind]
  | case8 links here name names children found notHere notUp short target link last =>
      simp at last
  | case9 here name names children found notHere notUp short target link last =>
      rw [List.cons_append, follow, found]
      simp [notHere, notUp, short, link, nonempty, bind, Except.bind]
  | case10 here name names children found notHere notUp short target link last links start ih =>
      rw [List.cons_append, follow, found]
      simp only [notHere, notUp, short, link, nonempty, if_false, List.append_eq_nil_iff, and_false,
        decide_false, Bool.false_and, Bool.false_eq_true, ← List.append_assoc]
      change Except.map _ (disk.follow links start _ followLast) = _
      rw [ih]
      cases disk.follow links start (target.lookups ++ names) true with
      | error failure => rfl
      | ok located =>
          change Except.map _ (Except.map _ (disk.follow located.left located.location _ _)) =
            Except.map _ (disk.follow located.left located.location _ _)
          cases disk.follow located.left located.location more followLast <;> rfl
  | case11 links here name names children found notHere notUp short node noLink child ih =>
      rw [List.cons_append, follow, found]
      simp only [notHere, notUp, short, child, if_false]
      cases node with
      | link target => exact absurd rfl (noLink target)
      | file _ _ | directory _ | device => exact ih
  | case12 links here name names node noDirectory found =>
      rw [List.cons_append, follow, found]
      cases node with
      | directory children => exact absurd rfl (noDirectory children)
      | file _ _ | link _ | device => rfl

/-- Where names lead, there is what stands at that place, and it is no link. -/
theorem settled_of_follow {located : Located links} (settled : names = [] → disk.IsSettled here)
    (followed : disk.follow links here names true = .ok located) :
    disk.root.at? located.location = located.node? ∧ IsNoLink located.node? := by
  fun_induction Disk.follow disk links here names true with
  | case1 links here =>
      cases followed
      exact ⟨rfl, (settled rfl).noLink⟩
  | case3 links here names children found ih =>
      exact ih (fun _ => isSettled_of_isDirectory ⟨children, found⟩) followed
  | case4 links here names children found _ ih =>
      exact ih (fun _ => isSettled_of_isDirectory (isDirectory_dropLast ⟨children, found⟩)) followed
  | case6 links here name children found notHere notUp short free =>
      cases followed
      exact ⟨(Node.at?_concat_of_directory found name).trans free, by simp [IsNoLink]⟩
  | case8 links here name names children found notHere notUp short target link last =>
      simp at last
  | case10 here name names children found notHere notUp short target link last links start =>
      rename_i ih
      generalize outcome : disk.follow links _ _ _ = inner at followed
      cases inner with
      | error failure => cases followed
      | ok inner =>
          cases followed
          have start' : IsDirectory (disk.root.at? start) := by
            simp only [start]
            split
            · exact isDirectory_root ⟨children, found⟩
            · exact ⟨children, found⟩
          exact ih (fun _ => isSettled_of_isDirectory start') outcome
  | case11 links here name names children found notHere notUp short node noLink child ih =>
      have child' : disk.root.at? (here ++ [name]) = some node :=
        (Node.at?_concat_of_directory found name).trans child
      apply ih _ followed
      intro _
      refine ⟨?_, Or.inr ⟨here, name, rfl, children, found⟩⟩
      rintro target link
      exact noLink target (Option.some.inj (child'.symm.trans link))
  | case2 | case5 | case7 | case9 | case12 => cases followed

/-- One name of a directory leads to what stands under it, if it is no link or links at the end are
not followed. -/
theorem follow_child (within : disk.root.at? here = some (.directory children))
    (plain : IsPlain name) (child : (Node.directory children).child? name = some node)
    (stops : followLast = true → IsNoLink (some node)) :
    disk.follow links here [name] followLast =
      .ok ⟨here ++ [name], some node, links, Nat.le_refl links⟩ := by
  have found : disk.root.at? (here ++ [name]) = some node :=
    (Node.at?_concat_of_directory within name).trans child
  rw [follow, within]
  simp only [plain.notHere, plain.notUp, plain.not_long, child, if_false]
  cases node with
  | link target =>
      cases followLast with
      | false => rfl
      | true => exact absurd rfl (stops rfl target)
  | file _ _ | directory _ | device =>
      dsimp only
      rw [follow, found]

theorem follow_link {target : Path} {located : Located links}
    (within : disk.root.at? here = some (.directory children)) (plain : IsPlain name)
    (child : (Node.directory children).child? name = some (.link target))
    (followed : disk.follow links here [name] true = .ok located) :
    ∃ fewer, ∃ inner : Located fewer, ∃ fewer_le, links = fewer + 1 ∧
      disk.follow fewer (if target.isAbsolute then [] else here) target.lookups true = .ok inner ∧
      located = inner.weaken fewer_le := by
  rw [follow, within] at followed
  simp only [plain.notHere, plain.notUp, plain.not_long, child, if_false, Bool.not_true,
    Bool.and_false, Bool.false_eq_true, List.append_nil] at followed
  cases links with
  | zero => cases followed
  | succ fewer =>
      cases outcome : disk.follow fewer (if target.isAbsolute then [] else here) target.lookups
          true with
      | error failure =>
          simp only [outcome] at followed
          cases followed
      | ok inner =>
          simp only [outcome] at followed
          cases followed
          exact ⟨fewer, inner, Nat.le_succ fewer, rfl, outcome, rfl⟩

/-- A name is that of a link, or it makes no difference whether a link at the end is followed. -/
theorem follow_name_cases (disk : Disk) (links : Nat) (here : Location) (name : Text) :
    disk.follow links here [name] false = disk.follow links here [name] true ∨
      ∃ children target, disk.root.at? here = some (.directory children) ∧ IsPlain name ∧
        (Node.directory children).child? name = some (.link target) := by
  cases found : disk.root.at? here with
  | none => exact Or.inl (by rw [follow_of_none found (by simp), follow_of_none found (by simp)])
  | some node =>
      cases node with
      | file _ _ | link _ | device => exact Or.inl (by simp only [follow, found])
      | directory children =>
          by_cases plain : IsPlain name
          · cases child : (Node.directory children).child? name with
            | none =>
                left
                simp only [follow, found, plain.notHere, plain.notUp, plain.not_long, child,
                  if_false, if_true]
            | some node =>
                rcases node.isNoLink_or_eq_link with noLink | ⟨target, rfl⟩
                · left
                  rw [follow_child found plain child fun _ => noLink,
                    follow_child found plain child fun _ => noLink]
                · exact Or.inr ⟨children, target, rfl, plain, child⟩
          · left
            have odd : name = ['.'] ∨ name = ['.', '.'] ∨ nameLimit < Text.utf8Size name := by
              by_contra! ordinary
              exact plain ⟨ordinary.1, ordinary.2.1, ordinary.2.2⟩
            rcases odd with rfl | rfl | long
            · simp only [follow, found, if_true]
            · simp [follow, found]
            · simp only [follow, found, long, if_true]

/-! ## Places below a path -/

/-- Where names lead that are looked up one after the other from where a path leads. -/
def lookUp (disk : Disk) (path : Path) (names : List Text) (followLast : Bool) :
    Except SystemError (Located linkLimit) := do
  let start ← disk.startOf path
  disk.follow linkLimit start (path.lookups ++ names) followLast

/-- From where a path leads, names of entries lead down to a node. -/
structure Leads (disk : Disk) (path : Path) (names : List Text) (place : Location)
    (node : Node) : Prop where
  down : ∀ name ∈ names, name ≠ ['.'] ∧ name ≠ ['.', '.']
  found : ∃ left left_le, disk.lookUp path names true = .ok ⟨place, some node, left, left_le⟩

/-- A route from where a path leads down to a regular file. -/
structure Route (disk : Disk) (path : Path) where
  /-- The names of the entries on the way. -/
  names : List Text
  /-- The place of the file. -/
  place : Location
  /-- The content of the file. -/
  content : Bytes
  /-- The modification time of the file. -/
  modified : Int
  /-- The route leads to the file. -/
  leads : disk.Leads path names place (.file content modified)

/-- Below a path there is no broken link, and none that leads back to a directory it lies in. The
system follows at most `linkLimit` links on the way to a name, and a link that it refuses to follow
counts as broken. -/
structure IsSound (disk : Disk) (path : Path) : Prop where
  present : ∃ place node, disk.Leads path [] place node
  unbroken : ∀ names around children name target,
    disk.Leads path names around (.directory children) → (name, .link target) ∈ children →
    ∃ place node, disk.Leads path (names ++ [name]) place node
  unlooped : ∀ names more place children, more ≠ [] →
    disk.Leads path names place (.directory children) →
    ¬disk.Leads path (names ++ more) place (.directory children)

variable {located : Located linkLimit} {left : Nat} {left_le : left ≤ linkLimit}

theorem lookUp_nil (disk : Disk) (path : Path) (followLast : Bool) :
    disk.lookUp path [] followLast = disk.locate path followLast := by
  simp only [lookUp, locate, List.append_nil]

theorem lookUp_append (nonempty : more ≠ []) (disk : Disk) (path : Path) (names : List Text)
    (followLast : Bool) :
    disk.lookUp path (names ++ more) followLast =
      disk.lookUp path names true >>= fun located =>
        (disk.follow located.left located.location more followLast).map
          (·.weaken located.left_le) := by
  simp only [lookUp, bind_assoc, ← List.append_assoc, follow_append nonempty]

theorem settled_of_lookUp (arrived : disk.lookUp path names true = .ok located) :
    disk.root.at? located.location = located.node? ∧ IsNoLink located.node? := by
  rcases exists_of_bind_eq_ok arrived with ⟨start, started, followed⟩
  apply settled_of_follow _ followed
  intro empty
  exact absurd (List.append_eq_nil_iff.mp empty).1 (Path.lookups_ne_nil (startOf_eq_ok started))

theorem Leads.at?_eq (leads : disk.Leads path names place node) :
    disk.root.at? place = some node := by
  rcases leads.found with ⟨left, left_le, arrived⟩
  exact (settled_of_lookUp arrived).1

/-- Names are looked up in directories only. -/
theorem isDirectory_of_follow {links : Nat} {located : Located links} (nonempty : names ≠ [])
    (followed : disk.follow links here names followLast = .ok located) :
    IsDirectory (disk.root.at? here) := by
  cases names with
  | nil => exact absurd rfl nonempty
  | cons name names =>
      rw [follow] at followed
      split at followed
      · cases followed
      · next children within => exact ⟨children, within⟩
      · cases followed

theorem Leads.isDirectory_root (leads : disk.Leads path names place node) :
    IsDirectory (some disk.root) := by
  rcases leads.found with ⟨left, left_le, arrived⟩
  rcases exists_of_bind_eq_ok arrived with ⟨start, started, followed⟩
  have nonempty : path.lookups ++ names ≠ [] := by
    simp [Path.lookups_ne_nil (startOf_eq_ok started)]
  exact Disk.isDirectory_root (isDirectory_of_follow nonempty followed)

theorem Leads.unique {place' : Location} {node' : Node} (leads : disk.Leads path names place node)
    (leads' : disk.Leads path names place' node') : place = place' ∧ node = node' := by
  rcases leads.found with ⟨left, left_le, arrived⟩
  rcases leads'.found with ⟨left', left_le', arrived'⟩
  cases arrived.symm.trans arrived'
  exact ⟨rfl, rfl⟩

/-- A place below a path is found by looking up one last name at some other place. -/
theorem exists_last_of_startOf {start : Location} (started : disk.startOf path = .ok start)
    (names : List Text) :
    ∃ before last, ∀ followLast, disk.lookUp path names followLast =
      disk.follow linkLimit start before true >>= fun located =>
        (disk.follow located.left located.location [last] followLast).map
          (·.weaken located.left_le) := by
  rcases List.eq_nil_or_concat (path.lookups ++ names) with empty | ⟨before, last, split⟩
  · exact absurd (List.append_eq_nil_iff.mp empty).1 (Path.lookups_ne_nil (startOf_eq_ok started))
  · refine ⟨before, last, ?_⟩
    intro followLast
    simp only [lookUp, started, split, List.concat_eq_append,
      ← follow_append (List.cons_ne_nil last [])]
    rfl

/-- What is looked up ends at a link, or it makes no difference whether a link at the end is
followed. -/
theorem lookUp_cases (disk : Disk) (path : Path) (names : List Text) :
    disk.lookUp path names false = disk.lookUp path names true ∨
      ∃ around name target left left_le,
        disk.lookUp path names false =
          .ok ⟨around ++ [name], some (.link target), left, left_le⟩ ∧
        ∀ located, disk.lookUp path names true = .ok located →
          ∃ fewer, ∃ inner : Located fewer, ∃ fewer_le, left = fewer + 1 ∧
            disk.follow fewer (if target.isAbsolute then [] else around) target.lookups true =
              .ok inner ∧ located = inner.weaken fewer_le := by
  cases started : disk.startOf path with
  | error cause => exact Or.inl (by simp only [lookUp, started]; rfl)
  | ok start =>
      rcases exists_last_of_startOf started names with ⟨before, last, parts⟩
      rw [parts, parts]
      cases outcome : disk.follow linkLimit start before true with
      | error cause => exact Or.inl rfl
      | ok middle =>
          change Except.map _ (disk.follow middle.left middle.location [last] false) =
              Except.map _ (disk.follow middle.left middle.location [last] true) ∨ _
          rcases disk.follow_name_cases middle.left middle.location last with
            same | ⟨children, target, within, plain, child⟩
          · exact Or.inl (by rw [same])
          · right
            refine ⟨middle.location, last, target, middle.left, middle.left_le, ?_, ?_⟩
            · change Except.map _ (disk.follow middle.left middle.location [last] false) = _
              rw [follow_child within plain child (by simp)]
              rfl
            · intro located arrived
              rcases exists_of_map_eq_ok arrived with ⟨further, followed, rfl⟩
              rcases follow_link within plain child followed with
                ⟨fewer, inner, fewer_le, left_eq, followed', rfl⟩
              exact ⟨fewer, inner, fewer_le.trans middle.left_le, left_eq, followed', rfl⟩

/-- Names that lead to something after a first one have led into a directory and to an entry of
it. -/
theorem child?_of_follow {located : Located links} (notHere : name ≠ ['.'])
    (notUp : name ≠ ['.', '.']) (followed : disk.follow links here (name :: names) followLast =
      .ok located) (there : located.node? = some node) :
    ∃ children child, disk.root.at? here = some (.directory children) ∧
      (Node.directory children).child? name = some child := by
  rw [follow] at followed
  split at followed
  · cases followed
  · next children within =>
      rw [if_neg notHere, if_neg notUp] at followed
      split at followed
      · cases followed
      · split at followed
        · split at followed
          · cases followed
            cases there
          · cases followed
        · next target child => exact ⟨children, .link target, within, child⟩
        · next child _ found => exact ⟨children, child, within, found⟩
  · cases followed

/-- Names that lead to something after some others have led into a directory and to an entry. -/
theorem exists_entry_of_lookUp {further : Located linkLimit}
    (arrived : disk.lookUp path names true = .ok located) (notHere : name ≠ ['.'])
    (notUp : name ≠ ['.', '.'])
    (found : disk.lookUp path (names ++ name :: more) followLast = .ok further)
    (there : further.node? = some node) :
    ∃ children child, located.node? = some (.directory children) ∧ (name, child) ∈ children := by
  rw [lookUp_append (List.cons_ne_nil name more), arrived] at found
  rcases exists_of_map_eq_ok found with ⟨inner, followed, rfl⟩
  rcases child?_of_follow notHere notUp followed there with ⟨children, child, within, entered⟩
  exact ⟨children, child, (settled_of_lookUp arrived).1.symm.trans within,
    Node.mem_of_child? entered⟩

/-- The last of some names is that of an entry in the directory that the others lead to. -/
theorem Leads.exists_around (leads : disk.Leads path (names ++ [name]) place node) :
    ∃ around children child,
      disk.Leads path names around (.directory children) ∧ (name, child) ∈ children := by
  rcases leads.found with ⟨left, left_le, found⟩
  have parts := found
  rw [lookUp_append (List.cons_ne_nil name [])] at parts
  rcases exists_of_bind_eq_ok parts with ⟨located, arrived, -⟩
  have dots := leads.down name (by simp)
  rcases exists_entry_of_lookUp arrived dots.1 dots.2 found rfl with
    ⟨children, child, within, entry_mem⟩
  rcases located with ⟨around, node?, left, left_le⟩
  cases within
  refine ⟨around, children, child, ⟨?_, left, left_le, arrived⟩, entry_mem⟩
  exact fun other other_mem => leads.down other (List.mem_append_left [name] other_mem)

/-! ## Routes that begin in the same way -/

theorem Route.eq_of_names {first second : disk.Route path} (same : first.names = second.names) :
    first = second := by
  rcases first with ⟨names, place, content, modified, leads⟩
  rcases second with ⟨names', place', content', modified', leads'⟩
  cases same
  rcases leads.unique leads' with ⟨rfl, node_eq⟩
  cases node_eq
  rfl

/-- A route goes no farther than certain names, or along them and then to an entry of the directory
they lead to. -/
theorem Route.eq_or_exists_entry {route : disk.Route path} (begins : names <+: route.names)
    (arrived : disk.lookUp path names true = .ok located) :
    route.names = names ∨
      ∃ children, located.node? = some (.directory children) ∧
        ∃ entry ∈ children, names ++ [entry.1] <+: route.names := by
  rcases begins with ⟨more, names_eq⟩
  cases more with
  | nil => exact Or.inl (by rw [← names_eq, List.append_nil])
  | cons name more =>
      rcases route.leads.found with ⟨left, left_le, found⟩
      have dots := route.leads.down name (by simp [← names_eq])
      rw [← names_eq] at found
      rcases exists_entry_of_lookUp arrived dots.1 dots.2 found rfl with
        ⟨children, child, within, entry_mem⟩
      exact Or.inr ⟨children, within, (name, child), entry_mem, more, by simpa using names_eq⟩

/-- All the routes whose names begin in certain ways, in the order of their names. -/
structure AreRoutes (begins : List Text → Prop) (routes : List (disk.Route path)) : Prop where
  ascending : routes.Pairwise fun first second => first.names < second.names
  mem_iff : ∀ route, route ∈ routes ↔ begins route.names

/-! ## What a walk does -/

/-- A walk has come to a node by certain names, which lead on to something if the node is a link,
and is inside directories that fewer of the names lead to. -/
structure Reaches (disk : Disk) (path : Path) (names : List Text) (links : Nat)
    (around : List (Path × Location)) (location : Location) (node : Node) : Prop where
  leads : ∃ place node, disk.Leads path names place node
  entered : ∃ followLast left_le,
    disk.lookUp path names followLast = .ok ⟨location, some node, links, left_le⟩
  above : ∀ outer ∈ around, ∃ shorter more children, names = shorter ++ more ∧ more ≠ [] ∧
    disk.Leads path shorter outer.2 (.directory children)

/-- A walk is inside the directory that certain names lead to, and in ones around it that fewer of
the names lead to. -/
structure IsIn (disk : Disk) (path : Path) (names : List Text) (links : Nat)
    (around : List (Path × Location)) (location : Location) (children : List (Text × Node)) :
    Prop where
  down : ∀ name ∈ names, name ≠ ['.'] ∧ name ≠ ['.', '.']
  arrived : ∃ left_le,
    disk.lookUp path names true = .ok ⟨location, some (.directory children), links, left_le⟩
  innermost : ∃ route outer, around = (route, location) :: outer
  above : ∀ outer ∈ around, ∃ shorter more children, names = shorter ++ more ∧
    disk.Leads path shorter outer.2 (.directory children)

/-- A walk that has come to a node lists the routes that go on from it. -/
def ListsNode (disk : Disk) (path : Path) (links : Nat) (around : List (Path × Location))
    (route : Path) (location : Location) (node : Node) : Prop :=
  ∀ names, disk.Reaches path names links around location node →
    ∃ routes : List (disk.Route path),
      disk.walkNode links around route location node = .ok (routes.map Route.place) ∧
      AreRoutes (names <+: ·) routes

/-- A walk that is inside a directory lists the routes that go on to the last of its entries. -/
def ListsChildren (disk : Disk) (path : Path) (links : Nat) (around : List (Path × Location))
    (children : List (Text × Node)) : Prop :=
  ∀ names location all, disk.IsIn path names links around location all → children <:+ all →
    ∃ routes : List (disk.Route path),
      disk.walkChildren links around children = .ok (routes.map Route.place) ∧
      AreRoutes (fun full => ∃ entry ∈ children, names ++ [entry.1] <+: full) routes

variable {around : List (Path × Location)} {location : Location} {route : Path}

theorem Reaches.arrived (reaches : disk.Reaches path names links around location node)
    (noLink : IsNoLink (some node)) :
    ∃ left_le, disk.lookUp path names true = .ok ⟨location, some node, links, left_le⟩ := by
  rcases reaches.entered with ⟨followLast, left_le, entered⟩
  cases followLast with
  | true => exact ⟨left_le, entered⟩
  | false =>
      rcases disk.lookUp_cases path names with same | ⟨_, _, target, _, _, ends, -⟩
      · exact ⟨left_le, same ▸ entered⟩
      · cases ends.symm.trans entered
        exact absurd rfl (noLink target)

theorem Reaches.leads_here (reaches : disk.Reaches path names links around location node)
    (noLink : IsNoLink (some node)) : disk.Leads path names location node := by
  rcases reaches.leads with ⟨place, node', leads⟩
  rcases reaches.arrived noLink with ⟨left_le, arrived⟩
  exact ⟨leads.down, links, left_le, arrived⟩

/-- The names lead into no directory that the walk is inside of. -/
theorem Reaches.find?_eq_none (sound : disk.IsSound path)
    (reaches : disk.Reaches path names links around location node) {node' : Node}
    (leads : disk.Leads path names place node') : around.find? (·.2 = place) = none := by
  rw [List.find?_eq_none]
  intro outer outer_mem back
  rw [decide_eq_true_eq] at back
  rcases reaches.above outer outer_mem with ⟨shorter, more, children, rfl, nonempty, earlier⟩
  rw [back] at earlier
  cases leads.at?_eq.symm.trans earlier.at?_eq
  exact sound.unlooped shorter more place children nonempty earlier leads

/-- At a link the walk goes on where the names lead. -/
theorem Reaches.through {target : Path} (sound : disk.IsSound path)
    (reaches : disk.Reaches path names links around location (.link target)) :
    ∃ fewer place node left left_le, links = fewer + 1 ∧
      disk.follow fewer (if target.isAbsolute then [] else location.dropLast) target.lookups true =
        .ok ⟨place, some node, left, left_le⟩ ∧
      around.find? (·.2 = place) = none ∧ disk.Reaches path names left around place node := by
  rcases reaches.leads with ⟨place, node, leads⟩
  rcases leads.found with ⟨left, left_le, arrived⟩
  rcases reaches.entered with ⟨followLast, links_le, entered⟩
  -- A link is not what names lead to if links at the end are followed.
  have noLink : disk.lookUp path names true ≠
      .ok ⟨location, some (.link target), links, links_le⟩ :=
    fun ends => absurd rfl ((settled_of_lookUp ends).2 target)
  cases followLast with
  | true => exact absurd entered noLink
  | false =>
      rcases disk.lookUp_cases path names with same | ⟨within, last, _, _, _, ends, goesOn⟩
      · exact absurd (same.symm.trans entered) noLink
      · cases entered.symm.trans ends
        rcases goesOn _ arrived with ⟨fewer, inner, fewer_le, links_eq, followed, located_eq⟩
        rcases inner with ⟨place', node?, left', left'_le⟩
        cases located_eq
        refine ⟨fewer, place', node, left', left'_le, links_eq, ?_,
          reaches.find?_eq_none sound leads, reaches.leads, ⟨true, left_le, arrived⟩,
          reaches.above⟩
        rw [List.dropLast_concat]
        exact followed

/-- An entry of a directory is reached by its name. -/
theorem IsIn.reaches {child : Node} (sound : disk.IsSound path) (proper : disk.root.IsProper)
    (isIn : disk.IsIn path names links around location children)
    (entry_mem : (name, child) ∈ children) :
    disk.Reaches path (names ++ [name]) links around (location ++ [name]) child := by
  rcases isIn.arrived with ⟨left_le, arrived⟩
  have within := (settled_of_lookUp arrived).1
  have entries := proper location children within
  have plain := isPlain_of_isEntryName (entries.named _ entry_mem)
  have entered := entries.child?_eq_some_iff.mpr entry_mem
  have found : ∀ followLast, (followLast = true → IsNoLink (some child)) →
      disk.lookUp path (names ++ [name]) followLast =
        .ok ⟨location ++ [name], some child, links, left_le⟩ := by
    intro followLast stops
    rw [lookUp_append (List.cons_ne_nil name []), arrived]
    change Except.map _ (disk.follow links location [name] followLast) = _
    rw [follow_child within plain entered stops]
    rfl
  refine ⟨?_, ⟨false, left_le, found false (by simp)⟩, ?_⟩
  · rcases child.isNoLink_or_eq_link with noLink | ⟨target, rfl⟩
    · refine ⟨location ++ [name], child, ?_, links, left_le, found true fun _ => noLink⟩
      intro other other_mem
      rcases List.mem_append.mp other_mem with other_mem | other_mem
      · exact isIn.down other other_mem
      · rw [List.mem_singleton.mp other_mem]
        exact ⟨plain.notHere, plain.notUp⟩
    · exact sound.unbroken names location children name target ⟨isIn.down, links, left_le, arrived⟩
        entry_mem
  · intro outer outer_mem
    rcases isIn.above outer outer_mem with ⟨shorter, more, within, rfl, leads⟩
    exact ⟨shorter, more ++ [name], within, by simp, by simp, leads⟩

theorem Reaches.isIn
    (reaches : disk.Reaches path names links around location (.directory children)) :
    disk.IsIn path names links ((route, location) :: around) location children := by
  have noLink : IsNoLink (some (.directory children)) := by simp [IsNoLink]
  have leads := reaches.leads_here noLink
  refine ⟨leads.down, reaches.arrived noLink, ⟨route, around, rfl⟩, ?_⟩
  intro outer outer_mem
  rcases List.mem_cons.mp outer_mem with rfl | outer_mem
  · exact ⟨names, [], children, by simp, leads⟩
  · rcases reaches.above outer outer_mem with ⟨shorter, more, children, names_eq, -, leads⟩
    exact ⟨shorter, more, children, names_eq, leads⟩

/-- No route goes on from what is no directory. -/
theorem Reaches.names_eq {further : disk.Route path}
    (reaches : disk.Reaches path names links around location node)
    (noLink : IsNoLink (some node)) (flat : ¬IsDirectory (some node))
    (begins : names <+: further.names) : further.names = names := by
  rcases reaches.arrived noLink with ⟨left_le, arrived⟩
  rcases further.eq_or_exists_entry begins arrived with same | ⟨children, within, -⟩
  · exact same
  · exact absurd ⟨children, within⟩ flat

theorem listsNode_file {content : Bytes} {modified : Int} :
    disk.ListsNode path links around route location (.file content modified) := by
  intro names reaches
  have noLink : IsNoLink (some (.file content modified)) := by simp [IsNoLink]
  have flat : ¬IsDirectory (some (.file content modified)) := by simp [IsDirectory]
  let here : disk.Route path := ⟨names, location, content, modified, reaches.leads_here noLink⟩
  refine ⟨[here], by simp [walkNode, here], List.pairwise_singleton _ _, ?_⟩
  intro other
  rw [List.mem_singleton]
  constructor
  · rintro rfl
    exact List.prefix_rfl
  · intro begins
    exact Route.eq_of_names (reaches.names_eq noLink flat begins)

theorem listsNode_device : disk.ListsNode path links around route location .device := by
  intro names reaches
  have noLink : IsNoLink (some .device) := by simp [IsNoLink]
  have flat : ¬IsDirectory (some .device) := by simp [IsDirectory]
  refine ⟨[], by simp [walkNode], List.Pairwise.nil, ?_⟩
  intro other
  rw [List.mem_nil_iff, false_iff]
  intro begins
  have leads := reaches.names_eq noLink flat begins ▸ other.leads
  cases (leads.unique (reaches.leads_here noLink)).2

theorem listsNode_directory
    (listed : disk.ListsChildren path links ((route, location) :: around) children) :
    disk.ListsNode path links around route location (.directory children) := by
  intro names reaches
  have noLink : IsNoLink (some (.directory children)) := by simp [IsNoLink]
  rcases reaches.arrived noLink with ⟨left_le, arrived⟩
  rcases listed names location children reaches.isIn List.suffix_rfl with ⟨routes, walked, are⟩
  refine ⟨routes, by rw [walkNode, walked], are.ascending, ?_⟩
  intro other
  rw [are.mem_iff]
  constructor
  · rintro ⟨entry, -, begins⟩
    exact (List.prefix_append names [entry.1]).trans begins
  · intro begins
    rcases other.eq_or_exists_entry begins arrived with same | ⟨all, within, more⟩
    · have leads := same ▸ other.leads
      cases (leads.unique (reaches.leads_here noLink)).2
    · cases within
      exact more

theorem listsNode_link {target : Path} (sound : disk.IsSound path) {fewer left : Nat} {left_le}
    {place : Location} (away : around.find? (·.2 = place) = none)
    (followed : disk.follow fewer (if target.isAbsolute then [] else location.dropLast)
      target.lookups true = .ok ⟨place, some node, left, left_le⟩)
    (listed : disk.ListsNode path left around route place node) :
    disk.ListsNode path (fewer + 1) around route location (.link target) := by
  intro names reaches
  rcases reaches.through sound with ⟨fewer', place', node', left', left_le', links_eq, followed',
    away', reaches'⟩
  cases links_eq
  cases followed.symm.trans followed'
  rcases listed names reaches' with ⟨routes, walked, are⟩
  refine ⟨routes, ?_, are⟩
  rw [walkNode]
  simp [followed, away, walked]

theorem listsChildren_nil : disk.ListsChildren path links around [] :=
  fun _ _ _ _ _ => ⟨[], by simp [walkChildren], List.Pairwise.nil, by simp⟩

/-- Names that begin alike are in the order of the first names that differ. -/
theorem lt_of_prefix {first second : List Text} {name' : Text} (earlier : name < name')
    (begins : names ++ [name] <+: first) (begins' : names ++ [name'] <+: second) :
    first < second := by
  rcases begins with ⟨rest, rfl⟩
  rcases begins' with ⟨rest', rfl⟩
  rw [List.append_assoc, List.append_assoc]
  apply List.append_left_lt
  exact List.cons_lt_cons_iff.mpr (Or.inl earlier)

theorem listsChildren_cons {child : Node} (sound : disk.IsSound path)
    (proper : disk.root.IsProper) {outer : Path × Location}
    (innermost : around.headD (Path.empty, []) = outer)
    (first : disk.ListsNode path links around (outer.1.join ⟨name⟩) (outer.2 ++ [name]) child)
    (others : disk.ListsChildren path links around children) :
    disk.ListsChildren path links around ((name, child) :: children) := by
  intro names location all isIn suffix
  rcases isIn.arrived with ⟨left_le, arrived⟩
  have entries := proper location all (settled_of_lookUp arrived).1
  rcases List.pairwise_cons.mp (entries.ascending.sublist suffix.sublist) with ⟨least, -⟩
  have outer_eq : outer.2 = location := by
    rcases isIn.innermost with ⟨route, around', rfl⟩
    exact innermost ▸ rfl
  have reaches := isIn.reaches sound proper (suffix.subset List.mem_cons_self)
  rcases first (names ++ [name]) (outer_eq ▸ reaches) with ⟨here, walked, are⟩
  rcases others names location all isIn ((List.suffix_cons _ _).trans suffix) with
    ⟨beyond, walked', are'⟩
  refine ⟨here ++ beyond, ?_, List.pairwise_append.mpr ⟨are.ascending, are'.ascending, ?_⟩, ?_⟩
  · rw [walkChildren, innermost]
    dsimp only
    rw [walked, walked', List.map_append]
    rfl
  · intro earlier earlier_mem later later_mem
    rcases (are'.mem_iff later).mp later_mem with ⟨entry, entry_mem, begins⟩
    exact lt_of_prefix (least entry entry_mem) ((are.mem_iff earlier).mp earlier_mem) begins
  · intro other
    rw [List.mem_append, are.mem_iff, are'.mem_iff, List.exists_mem_cons_iff]

/-- Wherever a walk has come to, it lists the routes that go on from there. -/
theorem listsNode (sound : disk.IsSound path) (proper : disk.root.IsProper) (links : Nat)
    (around : List (Path × Location)) (route : Path) (location : Location) (node : Node) :
    disk.ListsNode path links around route location node := by
  apply walkNode.induct disk (disk.ListsNode path) (disk.ListsChildren path)
  case case1 => exact fun _ _ _ _ _ _ => listsNode_file
  case case2 => exact fun _ _ _ _ => listsNode_device
  case case3 => exact fun _ _ _ _ _ listed => listsNode_directory listed
  -- In the next four cases the walk fails, but a link that is reached can be followed.
  case case4 =>
    intro around route location target names reaches
    rcases reaches.through sound with ⟨fewer, _, _, _, _, links_eq, -⟩
    cases links_eq
  case case5 =>
    intro around route location target links start cause refused names reaches
    rcases reaches.through sound with ⟨fewer, _, _, _, _, links_eq, followed, -⟩
    cases links_eq
    cases refused.symm.trans followed
  case case6 =>
    intro around route location target links start place left left_le broken names reaches
    rcases reaches.through sound with ⟨fewer, _, _, _, _, links_eq, followed, -⟩
    cases links_eq
    cases broken.symm.trans followed
  case case7 =>
    intro around route location target links start place left left_le node ancestor _ back followed
      names reaches
    rcases reaches.through sound with ⟨fewer, _, _, _, _, links_eq, followed', away, -⟩
    cases links_eq
    cases followed.symm.trans followed'
    cases back.symm.trans away
  case case8 =>
    intro around route location target links start place left left_le node away followed listed
    exact listsNode_link sound away followed listed
  case case9 => exact fun _ _ => listsChildren_nil
  case case10 =>
    intro links around name child children route location innermost first others
    exact listsChildren_cons sound proper innermost first others

/-- A walk below a path without broken links and loops lists the places of all routes, in the order
of their names. -/
theorem exists_routes (sound : disk.IsSound path) (proper : disk.root.IsProper) :
    ∃ routes : List (disk.Route path),
      routes.Pairwise (fun first second => first.names < second.names) ∧
      (∀ route, route ∈ routes) ∧ disk.walk path = .ok (routes.map Route.place) := by
  rcases sound.present with ⟨place, node, leads⟩
  have entered : ∃ location node left left_le,
      disk.lookUp path [] false = .ok ⟨location, some node, left, left_le⟩ := by
    rcases leads.found with ⟨left, left_le, arrived⟩
    rcases disk.lookUp_cases path [] with same | ⟨around, name, target, left, left_le, ends, -⟩
    · exact ⟨place, node, left, left_le, same.trans arrived⟩
    · exact ⟨around ++ [name], .link target, left, left_le, ends⟩
  rcases entered with ⟨location, entry, left, left_le, entered⟩
  have reaches : disk.Reaches path [] left [] location entry :=
    ⟨⟨place, node, leads⟩, ⟨false, left_le, entered⟩, by simp⟩
  rcases listsNode sound proper left [] path location entry [] reaches with ⟨routes, walked, are⟩
  refine ⟨routes, are.ascending, fun route => (are.mem_iff route).mpr List.nil_prefix, ?_⟩
  rw [lookUp_nil] at entered
  rw [walk, entered]
  exact walked

end Disk

end Pageweave
