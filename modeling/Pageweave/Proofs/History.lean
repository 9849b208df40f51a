import Mathlib.Data.List.Nodup
import Mathlib.Data.List.Lattice
import Pageweave.Engine
import Pageweave.Files.Flat
import Pageweave.Proofs.Provenance

/-!
# Histories

The operations of engines that share a cache form a history: each of them finds the files as they
are at its time and the cache as the ones before left it.

If every file version is read with the same outcome whenever it is read, and no two of the versions
have the same key, a cache makes no difference: a load after a history comes to what it comes to
with an empty cache. Both loads go through the same file versions in step; where only one of them
finds a content in its cache, the other one reads the file and makes the same content of it.
-/

namespace Pageweave

open LoadM

/-- Something that an engine is asked to do. -/
inductive Operation where
  /-- The files of the preload roots are cached. -/
  | setup
  /-- The files at a view path are cached. -/
  | preload (viewPath : Text)
  /-- The view at a path is loaded with the data of a context. -/
  | load (context : Context) (viewPath : Text)

/-- An operation of an engine on the files as they are at one time. -/
structure Event where
  /-- The engine. -/
  engine : Engine
  /-- The files. -/
  source : FileSource
  /-- The operation. -/
  operation : Operation

/-- The state that an event leaves, whether it succeeds or fails. -/
def Event.after (event : Event) (cache : Cache) : LoadState :=
  match event.operation with
  | .setup => (event.engine.setup event.source).after { cache }
  | .preload viewPath => (event.engine.loader.preload event.source viewPath).after { cache }
  | .load context viewPath =>
      (event.engine.loadView event.source context viewPath).after { cache }

/-- The cache that a history leaves which begins with an empty cache. -/
def History.cache (history : List Event) : Cache :=
  history.foldl (fun cache event => (event.after cache).cache) {}

/-- The file versions that are offered at some time. -/
def History.versions (sources : List FileSource) : Set FileEntry :=
  {entry | ∃ source ∈ sources, entry ∈ source.versions}

/-! ## Histories are faithful -/

section Faithful

variable {versions : Set FileEntry} {genuine : FileEntry → Text → Prop} {engine : Engine}
  {source : FileSource}

theorem staysFaithful_setup (distinct : Set.InjOn FileEntry.key versions)
    (supplied : engine.loader.Supplied source versions genuine) :
    Loader.StaysFaithful versions genuine (engine.setup source) := by
  rw [Engine.setup]
  split
  · exact keeps_pure _
  · apply keeps_bind (Loader.staysFaithful_tell _)
    intro _
    apply keeps_bind
    · apply keeps_foldlM
      intro total viewPath _
      exact keeps_bind (Loader.staysFaithful_preload distinct supplied viewPath)
        fun _ => keeps_pure _
    · intro total
      exact keeps_bind (Loader.staysFaithful_report _) fun _ => keeps_pure _

theorem staysFaithful_loadView (distinct : Set.InjOn FileEntry.key versions)
    (supplied : engine.loader.Supplied source versions genuine) (context : Context)
    (viewPath : Text) :
    Loader.StaysFaithful versions genuine (engine.loadView source context viewPath) := by
  apply keeps_bind
  · intro state faithful
    refine ⟨faithful.cached, faithful.scanned, ?_, faithful.skipped⟩
    intro key key_mem
    cases key_mem
  · intro _
    exact Loader.staysFaithful_expandWithin distinct supplied context _ viewPath

/-- An event that begins with an honest cache leaves a faithful state. -/
theorem faithful_event (distinct : Set.InjOn FileEntry.key versions) {event : Event}
    (supplied : event.engine.loader.Supplied event.source versions genuine) {cache : Cache}
    (honest : cache.IsHonest versions genuine) :
    (event.after cache).IsFaithful versions genuine := by
  have start := LoadState.isFaithful_of_honest honest
  rw [Event.after]
  cases event.operation with
  | setup => exact staysFaithful_setup distinct supplied _ start
  | preload viewPath => exact Loader.staysFaithful_preload distinct supplied viewPath _ start
  | load context viewPath =>
      exact staysFaithful_loadView distinct supplied context viewPath _ start

/-- Histories leave honest caches. -/
theorem honest_history (distinct : Set.InjOn FileEntry.key versions) {history : List Event}
    (supplied : ∀ event ∈ history, event.engine.loader.Supplied event.source versions genuine) :
    (History.cache history).IsHonest versions genuine := by
  rw [History.cache]
  apply List.foldlRecOn (motive := Cache.IsHonest versions genuine) history _ Cache.isHonest_empty
  intro cache honest event event_mem
  exact (faithful_event distinct (supplied event event_mem) honest).cached

end Faithful

/-! ## Caches make no difference -/

namespace Loader

/-- The two runs have seen the same keys, and both caches are honest. -/
def Alongside (versions : Set FileEntry) (genuine : FileEntry → Text → Prop)
    (first second : LoadState) : Prop :=
  second.seen = first.seen ∧ first.cache.IsHonest versions genuine ∧
    second.cache.IsHonest versions genuine

variable {versions : Set FileEntry} {loader : Loader} {source : FileSource} {context : Context}
  {outcome : FileEntry → Except FileFailure Bytes}

/-- A content is what a loader makes of the bytes that a version is always read with. -/
def Makes (loader : Loader) (outcome : FileEntry → Except FileFailure Bytes) (entry : FileEntry)
    (content : Text) : Prop :=
  ∃ bytes, outcome entry = .ok bytes ∧ content = (Content.process loader.minify entry.path bytes).1

theorem supplied_of_outcome (listed : ∀ entry ∈ source.versions, entry ∈ versions)
    (stable : ∀ entry ∈ source.versions, source.read entry.path = outcome entry) :
    loader.Supplied source versions (loader.Makes outcome) where
  listed := listed
  processed := fun entry entry_mem bytes answer =>
    ⟨bytes, (stable entry entry_mem).symm.trans answer, rfl⟩

/-- With an honest cache, what is fetched is what the file is read with. -/
theorem result_fetch_of_honest {entry : FileEntry} {state : LoadState}
    (entry_mem : entry ∈ versions) (stable : source.read entry.path = outcome entry)
    (honest : state.cache.IsHonest versions (loader.Makes outcome)) :
    (loader.fetch source entry).result state =
      match outcome entry with
      | .ok bytes => .ok (Content.process loader.minify entry.path bytes).1
      | .error failure => .error (.file failure) := by
  rw [result]
  rcases loader.fetch_cases source entry state with
    ⟨content, found, ran⟩ | ⟨failure, -, answer, ran⟩ | ⟨bytes, -, answer, ran⟩
  · rcases honest entry entry_mem content found with ⟨bytes, outcome_eq, content_eq⟩
    rw [ran, outcome_eq, content_eq]
  · rw [ran, ← stable, answer]
  · rw [ran, ← stable, answer]

theorem agree_fetch_of_honest (distinct : Set.InjOn FileEntry.key versions)
    (listed : ∀ entry ∈ source.versions, entry ∈ versions)
    (stable : ∀ entry ∈ source.versions, source.read entry.path = outcome entry)
    {entry : FileEntry} (entry_mem : entry ∈ source.versions) :
    Agree (fun _ => True) (Alongside versions (loader.Makes outcome)) Eq
      (loader.fetch source entry) (loader.fetch source entry) := by
  rintro first second ⟨seen_eq, honest, honest'⟩ -
  have supplied : loader.Supplied source versions (loader.Makes outcome) :=
    supplied_of_outcome listed stable
  refine ⟨?_, ?_, honest_fetch distinct supplied entry_mem honest,
    honest_fetch distinct supplied entry_mem honest'⟩
  · rw [matches_eq_iff]
    exact (result_fetch_of_honest (listed _ entry_mem) (stable _ entry_mem) honest).trans
      (result_fetch_of_honest (listed _ entry_mem) (stable _ entry_mem) honest').symm
  · rw [seen_after_fetch, seen_after_fetch, seen_eq]

theorem agree_load_of_honest (loader : Loader) (distinct : Set.InjOn FileEntry.key versions)
    (listed : ∀ entry ∈ source.versions, entry ∈ versions)
    (stable : ∀ entry ∈ source.versions, source.read entry.path = outcome entry)
    (context : Context) (viewPath : Text) :
    Agree (fun _ => True) (Alongside versions (loader.Makes outcome)) Eq
      (loader.load source context viewPath) (loader.load source context viewPath) := by
  apply agree_expandWithin
  · exact fun _ _ start => start.1
  · exact ⟨fun _ start => start, fun _ start => start⟩
  · rintro first second entry ⟨seen_eq, honest⟩
    exact ⟨by rw [LoadState.begin, LoadState.begin, seen_eq], honest⟩
  · exact fun _ => agree_fetch_of_honest distinct listed stable

end Loader

/-- Where file versions have keys of their own and are always read with the same outcome, a load
after any operations of an engine comes to what it comes to with an empty cache. -/
theorem Engine.loadView_eq_of_history (engine : Engine) (history : List Event)
    (own : ∀ event ∈ history, event.engine = engine) (source : FileSource)
    (outcome : FileEntry → Except FileFailure Bytes)
    (stable : ∀ files ∈ source :: history.map Event.source, ∀ entry ∈ files.versions,
      files.read entry.path = outcome entry)
    (distinct : Set.InjOn FileEntry.key
      (History.versions (source :: history.map Event.source)))
    (context : Context) (viewPath : Text) :
    (engine.loadView source context viewPath).result { cache := History.cache history } =
      (engine.loadView source context viewPath).result {} := by
  have listed : ∀ files ∈ source :: history.map Event.source, ∀ entry ∈ files.versions,
      entry ∈ History.versions (source :: history.map Event.source) :=
    fun files files_mem entry entry_mem => ⟨files, files_mem, entry_mem⟩
  have supplied : ∀ event ∈ history, event.engine.loader.Supplied event.source
      (History.versions (source :: history.map Event.source)) (engine.loader.Makes outcome) := by
    intro event event_mem
    have files_mem : event.source ∈ source :: history.map Event.source :=
      List.mem_cons_of_mem _ (List.mem_map_of_mem event_mem)
    rw [own event event_mem]
    exact Loader.supplied_of_outcome (listed _ files_mem) (stable _ files_mem)
  have honest := honest_history distinct supplied
  have agree := engine.loader.agree_load_of_honest distinct
    (listed source (by simp)) (stable source (by simp)) context viewPath
  have same := (agree { cache := History.cache history } {} ⟨rfl, honest, Cache.isHonest_empty⟩
    trivial).1
  exact matches_eq_iff.mp same

namespace History

/-- An engine with the default options for the whole store. -/
def storeEngine : Engine where
  config := {}
  loader := {
    root := ⟨Path.rootDirectory⟩
    minify := true
    contextAnchor := "</head>".toList
    clientVariable := "viewData".toList
    maxSubstitutions := 4096 }

/-- Why the item cannot be read. -/
def noAccess : SystemError :=
  .described .permissionDenied "Permission denied (os error 13)".toList

/-- A page and an item that cannot be read. -/
def earlierStore : FlatStore where
  files := [
    { path := Path.ofString "/page", content := Utf8.encode "old".toList, modified := 1 },
    { path := Path.ofString "/item", content := [], modified := 2, refusal := some noAccess }]

/-- The page in a new version, and the item. -/
def laterStore : FlatStore where
  files := [
    { path := Path.ofString "/page", content := Utf8.encode "new".toList, modified := 3 },
    { path := Path.ofString "/item", content := [], modified := 2, refusal := some noAccess }]

/-- What the versions of the page and the item are read with. -/
def storeOutcome (entry : FileEntry) : Except FileFailure Bytes :=
  if entry.modified = 1 then .ok (Utf8.encode "old".toList)
  else if entry.modified = 3 then .ok (Utf8.encode "new".toList)
  else .error (FlatStore.unreadable entry.path noAccess)

/-- The page is cached and loaded before it changes. -/
def storeEvents : List Event :=
  [⟨storeEngine, earlierStore.source, .preload "page".toList⟩,
    ⟨storeEngine, earlierStore.source, .load {} []⟩]

theorem versions_earlier : earlierStore.source.versions =
    [⟨Path.ofString "/page", 1⟩, ⟨Path.ofString "/item", 2⟩] := rfl

theorem versions_later : laterStore.source.versions =
    [⟨Path.ofString "/page", 3⟩, ⟨Path.ofString "/item", 2⟩] := rfl

theorem eq_of_mem_storeEvents {files : FileSource}
    (files_mem : files ∈ laterStore.source :: storeEvents.map Event.source) :
    files = laterStore.source ∨ files = earlierStore.source := by
  simpa [storeEvents] using files_mem

theorem stable_store : ∀ files ∈ laterStore.source :: storeEvents.map Event.source,
    ∀ entry ∈ files.versions, files.read entry.path = storeOutcome entry := by
  intro files files_mem entry entry_mem
  rcases eq_of_mem_storeEvents files_mem with rfl | rfl
  · rw [versions_later, List.mem_cons, List.mem_singleton] at entry_mem
    rcases entry_mem with rfl | rfl <;> rfl
  · rw [versions_earlier, List.mem_cons, List.mem_singleton] at entry_mem
    rcases entry_mem with rfl | rfl <;> rfl

theorem distinct_store :
    Set.InjOn FileEntry.key (versions (laterStore.source :: storeEvents.map Event.source)) := by
  have listed : ∀ entry ∈ versions (laterStore.source :: storeEvents.map Event.source),
      entry ∈ laterStore.source.versions ∪ earlierStore.source.versions := by
    rintro entry ⟨files, files_mem, entry_mem⟩
    rcases eq_of_mem_storeEvents files_mem with rfl | rfl
    · exact List.mem_union_left entry_mem _
    · exact List.mem_union_right _ entry_mem
  have nodup : ((laterStore.source.versions ∪ earlierStore.source.versions).map
      FileEntry.key).Nodup := by decide
  intro first first_mem second second_mem same
  exact List.inj_on_of_nodup_map nodup (listed first first_mem) (listed second second_mem) same

end History

/-- A load of the page in its new version comes to what it comes to with an empty cache. -/
theorem Engine.loadView_eq_of_storeEvents :
    (History.storeEngine.loadView History.laterStore.source {} "page".toList).result
        { cache := History.cache History.storeEvents } =
      (History.storeEngine.loadView History.laterStore.source {} "page".toList).result {} :=
  loadView_eq_of_history History.storeEngine History.storeEvents (by simp [History.storeEvents])
    History.laterStore.source History.storeOutcome History.stable_store History.distinct_store {}
    "page".toList

end Pageweave
