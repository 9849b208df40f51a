import Mathlib
import Pageweave.Proofs.History
import Pageweave.Proofs.Nesting
import Pageweave.Proofs.Routes

/-!
# Views on disks

A view on a disk is put together from the regular files below its path. Each file counts once, at
the place of its first route: on the other routes to it, its canonical path and modification time
give a key that has been seen. Which routes come first is a matter of their names alone, since the
walk lists them in the order of their names.
-/

namespace Pageweave

open LoadM

namespace Disk

variable {disk : Disk} {path : Path}

/-- The version of the file that a route leads to. -/
def Route.entry (route : disk.Route path) : FileEntry :=
  ⟨route.place.path, wholeMilliseconds route.modified⟩

/-- The versions of the regular files below a path. -/
def versionsBelow (disk : Disk) (path : Path) : Set FileEntry :=
  {entry | ∃ route : disk.Route path, route.entry = entry}

/-- A route such that none before it leads to the same file. -/
def Route.IsFirst (route : disk.Route path) : Prop :=
  ∀ earlier : disk.Route path, earlier.names < route.names → earlier.place ≠ route.place

/-- The scan of the file that a route leads to. -/
def Route.scan (loader : Loader) (context : Context) (route : disk.Route path) : Scan :=
  Scan.run context loader.maxSubstitutions
    (loader.embed context (Content.process loader.minify route.entry.path route.content).1)

theorem Route.at?_place (route : disk.Route path) :
    disk.root.at? route.place = some (.file route.content route.modified) :=
  route.leads.at?_eq

/-- Routes to one place lead to one file. -/
theorem Route.file_eq {first second : disk.Route path} (same : first.place = second.place) :
    first.entry = second.entry ∧ first.content = second.content := by
  have found := first.at?_place
  rw [same, second.at?_place, Option.some.injEq, Node.file.injEq] at found
  rw [Route.entry, Route.entry, same, found.2]
  exact ⟨rfl, found.1.symm⟩

/-- In a list of all routes in their order, those before a route are the ones with earlier names. -/
theorem Route.mem_iff_lt {done rest : List (disk.Route path)} {route : disk.Route path}
    (all : ∀ other, other ∈ done ++ route :: rest)
    (ascending : (done ++ route :: rest).Pairwise fun first second => first.names < second.names)
    (other : disk.Route path) : other ∈ done ↔ other.names < route.names := by
  rcases List.pairwise_append.mp ascending with ⟨-, ascending', earlier⟩
  constructor
  · exact fun other_mem => earlier other other_mem route List.mem_cons_self
  · intro other_lt
    rcases List.mem_append.mp (all other) with other_mem | other_mem
    · exact other_mem
    · rcases List.mem_cons.mp other_mem with rfl | other_mem
      · exact absurd other_lt (lt_irrefl _)
      · have later := (List.pairwise_cons.mp ascending').1 other other_mem
        exact absurd other_lt later.asymm

/-- Routes in their order are determined by which routes they are. -/
theorem Route.eq_of_mem_iff {routes routes' : List (disk.Route path)}
    (ascending : routes.Pairwise fun first second => first.names < second.names)
    (ascending' : routes'.Pairwise fun first second => first.names < second.names)
    (same : ∀ route, route ∈ routes ↔ route ∈ routes') : routes = routes' := by
  have : Std.Irrefl fun first second : disk.Route path => first.names < second.names :=
    ⟨fun _ => lt_irrefl _⟩
  have : Std.Antisymm fun first second : disk.Route path => first.names < second.names :=
    ⟨fun _ _ before after => absurd after before.asymm⟩
  exact List.Pairwise.eq_of_mem_iff ascending ascending' same

/-- There is a first route to each file. -/
theorem Route.exists_isFirst {routes : List (disk.Route path)} (all : ∀ route, route ∈ routes)
    (ascending : routes.Pairwise fun first second => first.names < second.names)
    (route : disk.Route path) : ∃ first : disk.Route path, first.IsFirst ∧
      first.place = route.place := by
  cases found : routes.find? fun other => decide (other.place = route.place) with
  | none =>
      have absent := List.find?_eq_none.mp found route (all route)
      simp at absent
  | some first =>
      rcases List.find?_eq_some_iff_append.mp found with ⟨there, before, after, rfl, others⟩
      rw [decide_eq_true_eq] at there
      refine ⟨first, ?_, there⟩
      intro earlier earlier_lt same
      have earlier_mem := (Route.mem_iff_lt all ascending earlier).mpr earlier_lt
      have elsewhere := others earlier earlier_mem
      simp [same, there] at elsewhere

theorem read_entry (proper : disk.root.IsProper) (route : disk.Route path)
    (short : Text.utf8Size route.entry.path.text < pathLimit) :
    disk.source.read route.entry.path = .ok route.content := by
  have answer : disk.read route.entry.path = .ok route.content :=
    read_path proper route.leads.isDirectory_root route.at?_place short
  simp only [source, answer]

/-- The source lists the versions of the files that the routes lead to. -/
theorem walk_source (proper : disk.root.IsProper) {routes : List (disk.Route path)}
    (walked : disk.walk path = .ok (routes.map Route.place)) :
    disk.source.walk path = .ok (routes.map Route.entry) := by
  have version : ∀ route : disk.Route path,
      (disk.versionAt? ∘ Route.place) route = (some ∘ Route.entry) route :=
    fun route => versionAt?_eq proper route.at?_place
  simp only [source, walked, List.filterMap_map, funext version, List.filterMap_eq_map]

end Disk

namespace Loader

variable {loader : Loader} {source : FileSource} {context : Context} {load : Text → LoadM Text}
  {entry : FileEntry} {state : LoadState} {disk : Disk} {path : Path}

/-- A file that can be read is fetched. -/
theorem exists_of_fetch {bytes : Bytes} (loader : Loader) (state : LoadState)
    (answer : source.read entry.path = .ok bytes) :
    ∃ content, (loader.fetch source entry).result state = .ok content := by
  rw [result]
  rcases loader.fetch_cases source entry state with
    ⟨content, -, ran⟩ | ⟨failure, -, answer', -⟩ | ⟨bytes', -, -, ran⟩
  · exact ⟨content, congrArg Prod.fst ran⟩
  · cases answer.symm.trans answer'
  · exact ⟨_, congrArg Prod.fst ran⟩

/-- The expansion of a content in which no inclusion is met is what is left by its scan. -/
theorem expandNew_of_fetch (load : Text → LoadM Text) {content : Text}
    (fetched : (loader.fetch source entry).result state = .ok content)
    (alone : (Scan.run context loader.maxSubstitutions (loader.embed context content)).inclusions =
      []) :
    (loader.expandNew source context load entry).result state =
        .ok (Scan.run context loader.maxSubstitutions (loader.embed context content)).text ∧
      ((loader.expandNew source context load entry).after state).cache =
        ((loader.fetch source entry).after state).cache ∧
      ((loader.expandNew source context load entry).after state).seen = state.seen := by
  have seen := loader.seen_after_fetch source entry state
  rw [expandNew, result_bind_of_ok fetched, after_bind_of_ok fetched,
    result_bind_of_ok (result_record _ _), after_bind_of_ok (result_record _ _),
    result_bind_of_ok (result_report _ _), after_bind_of_ok (result_report _ _), alone]
  exact ⟨rfl, rfl, seen⟩

/-- What the files below a path have to be for a view of them to be put together from their texts
alone: they have keys of their own, they can be read, and no inclusion is met in them. -/
structure Combines (loader : Loader) (context : Context) (disk : Disk) (path : Path) : Prop where
  distinct : ∀ first second : disk.Route path,
    first.entry.key = second.entry.key → first.place = second.place
  readable : ∀ route : disk.Route path, disk.source.read route.entry.path = .ok route.content
  alone : ∀ route : disk.Route path, (route.scan loader context).inclusions = []

/-- Just the keys of certain routes have been seen, and the cache is honest for the files below the
path. -/
structure Passed (loader : Loader) (done : List (disk.Route path)) (state : LoadState) : Prop where
  honest : state.cache.IsHonest (disk.versionsBelow path)
    (loader.Makes fun entry => disk.source.read entry.path)
  seen : ∀ key, key ∈ state.seen.keys ↔ ∃ route ∈ done, route.entry.key = key

variable {done rest : List (disk.Route path)} {route : disk.Route path}

theorem Combines.injOn_key (combines : loader.Combines context disk path) :
    Set.InjOn FileEntry.key (disk.versionsBelow path) := by
  rintro _ ⟨first, rfl⟩ _ ⟨second, rfl⟩ same
  exact (Disk.Route.file_eq (combines.distinct first second same)).1

/-- The first route to a file is expanded. -/
theorem Passed.expandEntry_of_new (load : Text → LoadM Text)
    (combines : loader.Combines context disk path) (passed : loader.Passed done state)
    (new : route.entry.key ∉ state.seen.keys) :
    (loader.expandEntry disk.source context load route.entry).result state =
        .ok (route.scan loader context).text ∧
      loader.Passed (done ++ [route])
        ((loader.expandEntry disk.source context load route.entry).after state) := by
  have answer := combines.readable route
  have entry_mem : route.entry ∈ disk.versionsBelow path := ⟨route, rfl⟩
  have processed : ∀ bytes, disk.source.read route.entry.path = .ok bytes →
      loader.Makes (fun entry => disk.source.read entry.path) route.entry
        (Content.process loader.minify route.entry.path bytes).1 :=
    fun bytes answer => ⟨bytes, answer, rfl⟩
  have honest : (state.begin route.entry).cache.IsHonest _ _ := passed.honest
  have honest' := honest_fetch_of_processed combines.injOn_key entry_mem processed honest
  rcases exists_of_fetch loader (state.begin route.entry) answer with ⟨content, fetched⟩
  rcases genuine_of_fetch_of_processed entry_mem processed honest fetched with
    ⟨bytes, answer', rfl⟩
  cases answer.symm.trans answer'
  rcases expandNew_of_fetch load fetched (combines.alone route) with
    ⟨expanded, cache_eq, seen_eq⟩
  rw [result, after, Loader.expandEntry_of_new new]
  refine ⟨expanded, cache_eq ▸ honest', ?_⟩
  intro key
  change key ∈ ((loader.expandNew _ _ _ _).after _).seen.keys ↔ _
  rw [seen_eq]
  simp [LoadState.begin, passed.seen, or_and_right, exists_or, eq_comm]

/-- Later routes to a file are passed over. -/
theorem Passed.expandEntry_of_seen (context : Context) (load : Text → LoadM Text)
    (passed : loader.Passed done state) (seen : route.entry.key ∈ state.seen.keys) :
    (loader.expandEntry disk.source context load route.entry).result state = .ok [] ∧
      loader.Passed (done ++ [route])
        ((loader.expandEntry disk.source context load route.entry).after state) := by
  rw [result, after, Loader.expandEntry_of_seen seen]
  refine ⟨rfl, passed.honest, ?_⟩
  intro key
  change key ∈ state.seen.keys ↔ _
  constructor
  · intro key_mem
    rcases (passed.seen key).mp key_mem with ⟨earlier, earlier_mem, key_eq⟩
    exact ⟨earlier, List.mem_append_left [route] earlier_mem, key_eq⟩
  · rintro ⟨earlier, earlier_mem, rfl⟩
    rcases List.mem_append.mp earlier_mem with earlier_mem | earlier_mem
    · exact (passed.seen _).mpr ⟨earlier, earlier_mem, rfl⟩
    · rw [List.mem_singleton.mp earlier_mem]
      exact seen

/-- Once the routes before a route have been passed, its key is new just if it comes first. -/
theorem Passed.isFirst_iff (combines : loader.Combines context disk path)
    (passed : loader.Passed done state)
    (before : ∀ other, other ∈ done ↔ other.names < route.names) :
    route.IsFirst ↔ route.entry.key ∉ state.seen.keys := by
  rw [passed.seen]
  constructor
  · rintro first ⟨earlier, earlier_mem, key_eq⟩
    exact first earlier ((before earlier).mp earlier_mem)
      (combines.distinct earlier route key_eq)
  · intro new earlier earlier_lt same
    exact new ⟨earlier, (before earlier).mpr earlier_lt,
      congrArg FileEntry.key (Disk.Route.file_eq same).1⟩

/-- After the routes before it, a route comes to the text of its file or to nothing. -/
theorem Passed.expandEntry (load : Text → LoadM Text)
    (combines : loader.Combines context disk path) (passed : loader.Passed done state)
    (before : ∀ other, other ∈ done ↔ other.names < route.names) :
    ∃ text, (loader.expandEntry disk.source context load route.entry).result state = .ok text ∧
      loader.Passed (done ++ [route])
        ((loader.expandEntry disk.source context load route.entry).after state) ∧
      (route.IsFirst ∧ text = (route.scan loader context).text ∨ ¬route.IsFirst ∧ text = []) := by
  have isFirst_iff := passed.isFirst_iff combines before
  by_cases seen : route.entry.key ∈ state.seen.keys
  · rcases passed.expandEntry_of_seen context load seen with ⟨came, passed'⟩
    exact ⟨[], came, passed', Or.inr ⟨fun first => isFirst_iff.mp first seen, rfl⟩⟩
  · rcases passed.expandEntry_of_new load combines seen with ⟨came, passed'⟩
    exact ⟨_, came, passed', Or.inl ⟨isFirst_iff.mpr seen, rfl⟩⟩

/-- The entries of routes one after the other come to the texts of those routes that are the first
ones to their files. -/
theorem Passed.foldlM_expandEntry (load : Text → LoadM Text)
    (combines : loader.Combines context disk path) (passed : loader.Passed done state)
    (all : ∀ route, route ∈ done ++ rest)
    (ascending : (done ++ rest).Pairwise fun first second => first.names < second.names)
    (output : Text) :
    ∃ firsts : List (disk.Route path), firsts.Sublist rest ∧
      (∀ route, route ∈ firsts ↔ route ∈ rest ∧ route.IsFirst) ∧
      ((rest.map Disk.Route.entry).foldlM (fun output entry => do
        let expansion ← loader.expandEntry disk.source context load entry
        return output ++ expansion) output).result state =
          .ok (output ++ firsts.flatMap fun route => (route.scan loader context).text) := by
  induction rest generalizing done state output with
  | nil => exact ⟨[], List.Sublist.refl _, by simp, by simp⟩
  | cons route rest ih =>
      -- The routes passed so far are those before this one, so it comes first just if it is new.
      have before := Disk.Route.mem_iff_lt all ascending
      rcases passed.expandEntry load combines before with
        ⟨text, came, passed', text_eq⟩
      have split : done ++ route :: rest = done ++ [route] ++ rest := by simp
      rw [split] at all ascending
      rcases ih passed' all ascending (output ++ text) with ⟨firsts, sublist, mem_iff, others⟩
      rw [List.map_cons, List.foldlM_cons, bind_assoc, result_bind_of_ok came, pure_bind, others]
      rcases text_eq with ⟨first, rfl⟩ | ⟨notFirst, rfl⟩
      · refine ⟨route :: firsts, sublist.cons_cons route, ?_, by simp⟩
        intro other
        rw [List.mem_cons, List.mem_cons, mem_iff]
        constructor
        · rintro (rfl | ⟨other_mem, first'⟩)
          · exact ⟨Or.inl rfl, first⟩
          · exact ⟨Or.inr other_mem, first'⟩
        · rintro ⟨rfl | other_mem, first'⟩
          · exact Or.inl rfl
          · exact Or.inr ⟨other_mem, first'⟩
      · refine ⟨firsts, sublist.cons route, ?_, by simp⟩
        intro other
        rw [List.mem_cons, mem_iff]
        constructor
        · exact fun ⟨other_mem, first'⟩ => ⟨Or.inr other_mem, first'⟩
        · rintro ⟨rfl | other_mem, first'⟩
          · exact absurd first' notFirst
          · exact ⟨other_mem, first'⟩

end Loader

/-- On a disk whose tree is in order, let there be no broken links and no loops below the path of a
view, and no canonical path that is too long for the system. The walk lists one entry for each
route, with the canonical path of the file, in the order of the names. If the files have keys of
their own and no inclusion is met in them, the view comes to the texts of the files, each one at the
place of its first route. -/
theorem Engine.loadView_eq_firsts (engine : Engine) {disk : Disk} (context : Context)
    {viewPath : Text} {path : Path} (state : LoadState)
    (resolved : engine.loader.root.resolve viewPath = path) (proper : disk.root.IsProper)
    (sound : disk.IsSound path)
    (short : ∀ route : disk.Route path, Text.utf8Size route.entry.path.text < Disk.pathLimit)
    (distinct : ∀ first second : disk.Route path,
      first.entry.key = second.entry.key → first.place = second.place)
    (alone : ∀ route : disk.Route path, (route.scan engine.loader context).inclusions = [])
    (honest : state.cache.IsHonest (disk.versionsBelow path)
      (engine.loader.Makes fun entry => disk.source.read entry.path)) :
    ∃ routes firsts : List (disk.Route path),
      routes.Pairwise (fun first second => first.names < second.names) ∧
      (∀ route, route ∈ routes) ∧
      disk.source.walk path = .ok (routes.map Disk.Route.entry) ∧
      firsts.Pairwise (fun first second => first.names < second.names) ∧
      (∀ route, route ∈ firsts ↔ route.IsFirst) ∧
      (firsts.map Disk.Route.place).Nodup ∧
      (∀ route ∈ routes, route.place ∈ firsts.map Disk.Route.place) ∧
      (engine.loadView disk.source context viewPath).result state =
        .ok (firsts.flatMap fun route => (route.scan engine.loader context).text) := by
  subst resolved
  rcases Disk.exists_routes sound proper with ⟨routes, ascending, all, walked⟩
  have walked' := Disk.walk_source proper walked
  have combines : engine.loader.Combines context disk (engine.loader.root.resolve viewPath) :=
    ⟨distinct, fun route => Disk.read_entry proper route (short route), alone⟩
  have passed : engine.loader.Passed ([] : List (disk.Route (engine.loader.root.resolve viewPath)))
      (engine.loader.afterListing disk.source viewPath { state with seen := {} }) :=
    ⟨honest, by simp⟩
  rcases passed.foldlM_expandEntry (engine.loader.load disk.source context) combines all ascending
    [] with ⟨firsts, sublist, mem_iff, came⟩
  have mem_iff' : ∀ route, route ∈ firsts ↔ route.IsFirst := by
    intro route
    rw [mem_iff]
    exact and_iff_right (all route)
  have ascending' := ascending.sublist sublist
  refine ⟨routes, firsts, ascending, all, walked', ascending', mem_iff', ?_, ?_, ?_⟩
  · rw [List.Nodup, List.pairwise_map]
    apply ascending'.imp_of_mem
    intro earlier later _ later_mem earlier_lt
    exact (mem_iff' later).mp later_mem earlier earlier_lt
  · intro route _
    rcases Disk.Route.exists_isFirst all ascending route with ⟨first, isFirst, place_eq⟩
    exact List.mem_map.mpr ⟨first, (mem_iff' first).mpr isFirst, place_eq⟩
  · change (engine.loader.load disk.source context viewPath).result { state with seen := {} } = _
    rw [result, Loader.load_of_walked walked']
    exact came

namespace DiskViews

/-- The directory below the view. -/
def lower : List (Text × Node) :=
  [("f".toList, .file (Utf8.encode "F".toList) 1000)]

/-- The directory of the view, where the link to the other directory comes before the file. -/
def upper : List (Text × Node) :=
  [("a".toList, .link (Path.ofString "c")), ("b".toList, .file (Utf8.encode "B".toList) 2000),
    ("c".toList, .directory lower)]

/-- The disk with the directories. -/
def disk : Disk where
  root := .directory [("v".toList, .directory upper)]
  workingDirectory := []

/-- An engine on the disk. -/
def engine : Engine where
  config := { root := Path.ofString "/" }
  loader := {
    root := ⟨Path.rootDirectory⟩
    minify := true
    contextAnchor := "</head>".toList
    clientVariable := "viewData".toList
    maxSubstitutions := 4096 }

theorem resolve_view : engine.loader.root.resolve "v".toList = Path.ofString "/v" := by
  cbv

/-- What names below the view lead to. -/
inductive Lands : List Text → Location → Node → Prop where
  | view : Lands [] ["v".toList] (.directory upper)
  | link : Lands ["a".toList] ["v".toList, "c".toList] (.directory lower)
  | linked : Lands ["a".toList, "f".toList] ["v".toList, "c".toList, "f".toList]
      (.file (Utf8.encode "F".toList) 1000)
  | file : Lands ["b".toList] ["v".toList, "b".toList] (.file (Utf8.encode "B".toList) 2000)
  | directory : Lands ["c".toList] ["v".toList, "c".toList] (.directory lower)
  | within : Lands ["c".toList, "f".toList] ["v".toList, "c".toList, "f".toList]
      (.file (Utf8.encode "F".toList) 1000)

section Lands

variable {names : List Text} {place : Location} {node : Node}

theorem Lands.leads (lands : Lands names place node) :
    disk.Leads (Path.ofString "/v") names place node := by
  cases lands with
  | view => exact ⟨by decide, 40, by decide, by cbv⟩
  | link => exact ⟨by decide, 39, by decide, by cbv⟩
  | linked => exact ⟨by decide, 39, by decide, by cbv⟩
  | file => exact ⟨by decide, 40, by decide, by cbv⟩
  | directory => exact ⟨by decide, 40, by decide, by cbv⟩
  | within => exact ⟨by decide, 40, by decide, by cbv⟩

theorem Lands.of_leads {place' : Location} {node' : Node} (lands : Lands names place' node')
    (leads : disk.Leads (Path.ofString "/v") names place node) : Lands names place node := by
  rcases lands.leads.unique leads with ⟨rfl, rfl⟩
  exact lands

/-- Other names lead to nothing. -/
theorem lands_iff_leads :
    Lands names place node ↔ disk.Leads (Path.ofString "/v") names place node := by
  refine ⟨Lands.leads, ?_⟩
  intro leads
  induction names using List.reverseRecOn generalizing place node with
  | nil => exact Lands.view.of_leads leads
  | append_singleton names name ih =>
      rcases leads.exists_around with ⟨around, children, child, earlier, entry_mem⟩
      cases ih earlier with
      | view =>
          simp only [upper, List.mem_cons, Prod.mk.injEq, List.not_mem_nil, or_false] at entry_mem
          rcases entry_mem with ⟨rfl, -⟩ | ⟨rfl, -⟩ | ⟨rfl, -⟩
          · exact Lands.link.of_leads leads
          · exact Lands.file.of_leads leads
          · exact Lands.directory.of_leads leads
      | link =>
          rcases List.mem_singleton.mp entry_mem with ⟨rfl, -⟩
          exact Lands.linked.of_leads leads
      | directory =>
          rcases List.mem_singleton.mp entry_mem with ⟨rfl, -⟩
          exact Lands.within.of_leads leads

end Lands

theorem isSound_view : disk.IsSound (Path.ofString "/v") where
  present := ⟨_, _, Lands.view.leads⟩
  unbroken := by
    intro names around children name target leads entry_mem
    cases lands_iff_leads.mpr leads with
    | view =>
        simp only [upper, List.mem_cons, Prod.mk.injEq, reduceCtorEq, and_false, List.not_mem_nil,
          or_false] at entry_mem
        rcases entry_mem with ⟨rfl, -⟩
        exact ⟨_, _, Lands.link.leads⟩
    | link | directory => simp [lower] at entry_mem
  unlooped := by
    intro names more place children nonempty leads again
    rcases List.exists_cons_of_ne_nil nonempty with ⟨name, more, rfl⟩
    generalize full_eq : names ++ name :: more = full at again
    cases lands_iff_leads.mpr leads with
    | view => cases lands_iff_leads.mpr again; simp at full_eq
    | link | directory => cases lands_iff_leads.mpr again <;> simp at full_eq

theorem isProper_root : disk.root.IsProper := by
  have flat : ∀ content modified, (Node.file content modified).IsProper :=
    fun _ _ => Node.isProper_of_flat (by simp [Node.IsDirectory])
  have isProper_lower : (Node.directory lower).IsProper := by
    apply Node.isProper_directory
    · exact ⟨List.pairwise_singleton _ _, by simp [lower, Node.isEntryName_singleton]⟩
    · simp [lower, flat]
  have isProper_upper : (Node.directory upper).IsProper := by
    apply Node.isProper_directory
    · exact ⟨by decide, by simp [upper, Node.isEntryName_singleton]⟩
    · simp [upper, flat, isProper_lower, Node.isProper_of_flat, Node.IsDirectory]
  apply Node.isProper_directory
  · exact ⟨List.pairwise_singleton _ _, by simp [Node.isEntryName_singleton]⟩
  · simp [isProper_upper]

/-- The route through the link. -/
def linked : disk.Route (Path.ofString "/v") :=
  ⟨_, _, _, _, Lands.linked.leads⟩

/-- The route to the other file. -/
def single : disk.Route (Path.ofString "/v") :=
  ⟨_, _, _, _, Lands.file.leads⟩

/-- The route to the file of the link in its own directory. -/
def within : disk.Route (Path.ofString "/v") :=
  ⟨_, _, _, _, Lands.within.leads⟩

theorem route_cases (route : disk.Route (Path.ofString "/v")) :
    route = linked ∨ route = single ∨ route = within := by
  rcases route with ⟨names, place, content, modified, leads⟩
  cases lands_iff_leads.mpr leads with
  | linked => exact Or.inl rfl
  | file => exact Or.inr (Or.inl rfl)
  | within => exact Or.inr (Or.inr rfl)

theorem isFirst_linked : linked.IsFirst := by
  intro earlier earlier_lt
  rcases route_cases earlier with rfl | rfl | rfl <;> exact absurd earlier_lt (by decide)

theorem isFirst_single : single.IsFirst := by
  intro earlier earlier_lt
  rcases route_cases earlier with rfl | rfl | rfl
  · decide
  · exact absurd earlier_lt (by decide)
  · exact absurd earlier_lt (by decide)

theorem not_isFirst_within : ¬within.IsFirst :=
  fun isFirst => isFirst linked (by decide) rfl

theorem scan_linked : linked.scan engine.loader {} = ⟨[], "F".toList⟩ := by
  have processed : (Content.process engine.loader.minify linked.entry.path linked.content).1 =
      "F".toList := by
    cbv
  have embedded : engine.loader.embed {} "F".toList = "F".toList :=
    Snapshot.embed_of_none (by cbv) (by decide)
  rw [Disk.Route.scan, processed, embedded]
  cbv

theorem scan_single : single.scan engine.loader {} = ⟨[], "B".toList⟩ := by
  have processed : (Content.process engine.loader.minify single.entry.path single.content).1 =
      "B".toList := by
    cbv
  have embedded : engine.loader.embed {} "B".toList = "B".toList :=
    Snapshot.embed_of_none (by cbv) (by decide)
  rw [Disk.Route.scan, processed, embedded]
  cbv

theorem scan_within : within.scan engine.loader {} = ⟨[], "F".toList⟩ :=
  scan_linked

end DiskViews

/-- The file that the link leads to comes first, and only once. -/
theorem Engine.loadView_eq_firsts_link :
    DiskViews.disk.source.walk (Path.ofString "/v") =
        .ok [⟨Path.ofString "/v/c/f", 1⟩, ⟨Path.ofString "/v/b", 2⟩,
          ⟨Path.ofString "/v/c/f", 1⟩] ∧
      (DiskViews.engine.loadView DiskViews.disk.source {} "v".toList).result {} =
        .ok "FB".toList := by
  have short : ∀ route : DiskViews.disk.Route (Path.ofString "/v"),
      Text.utf8Size route.entry.path.text < Disk.pathLimit := by
    intro route
    rcases DiskViews.route_cases route with rfl | rfl | rfl <;> cbv
  have distinct : ∀ first second : DiskViews.disk.Route (Path.ofString "/v"),
      first.entry.key = second.entry.key → first.place = second.place := by
    intro first second
    rcases DiskViews.route_cases first with rfl | rfl | rfl <;>
      rcases DiskViews.route_cases second with rfl | rfl | rfl <;> decide
  have alone : ∀ route : DiskViews.disk.Route (Path.ofString "/v"),
      (route.scan DiskViews.engine.loader {}).inclusions = [] := by
    intro route
    rcases DiskViews.route_cases route with rfl | rfl | rfl
    · rw [DiskViews.scan_linked]
      rfl
    · rw [DiskViews.scan_single]
      rfl
    · rw [DiskViews.scan_within]
      rfl
  rcases loadView_eq_firsts DiskViews.engine {} {} DiskViews.resolve_view DiskViews.isProper_root
    DiskViews.isSound_view short distinct alone Cache.isHonest_empty with
    ⟨routes, firsts, ascending, all, walked, ascending', mem_iff, -, -, came⟩
  have routes_eq : routes = [DiskViews.linked, DiskViews.single, DiskViews.within] := by
    apply Disk.Route.eq_of_mem_iff ascending (by decide)
    intro route
    simpa [all] using DiskViews.route_cases route
  have firsts_eq : firsts = [DiskViews.linked, DiskViews.single] := by
    apply Disk.Route.eq_of_mem_iff ascending' (by decide)
    intro route
    rw [mem_iff]
    constructor
    · intro isFirst
      rcases DiskViews.route_cases route with rfl | rfl | rfl
      · exact List.mem_cons_self
      · exact List.mem_cons_of_mem _ List.mem_cons_self
      · exact absurd isFirst DiskViews.not_isFirst_within
    · intro route_mem
      rcases List.mem_pair.mp route_mem with rfl | rfl
      · exact DiskViews.isFirst_linked
      · exact DiskViews.isFirst_single
  rw [routes_eq] at walked
  rw [firsts_eq, List.flatMap_cons, List.flatMap_cons, DiskViews.scan_linked,
    DiskViews.scan_single] at came
  exact ⟨walked, came⟩

end Pageweave
