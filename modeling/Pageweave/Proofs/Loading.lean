import Pageweave.Proofs.Run

/-!
# The steps of a load

Each operation of a load is described here once, by what it comes to and what it leaves behind:
`fetch_cases` lists the three ways in which the processed content of a file version is come by, and
`expandEntry_of_seen` and `expandEntry_of_new` the two ways in which a file version is treated.
`keeps_expandWithin` is the induction over nested loads: what expanding one file version keeps, if
the loads of its inclusions do, is kept by every load.

`Precedes` is the order of the states that a load goes through. What was done is never undone, and
a key that was seen remains seen.
-/

namespace Pageweave

namespace SeenKeys

theorem contains_iff {seen : SeenKeys} {key : Key} :
    seen.contains key = true ↔ key ∈ seen.keys := by
  simp [contains]

theorem insert_of_mem {seen : SeenKeys} {key : Key} (mem : key ∈ seen.keys) :
    seen.insert key = seen := by
  simp [insert, contains_iff.mpr mem]

theorem insert_of_not_mem {seen : SeenKeys} {key : Key} (not_mem : key ∉ seen.keys) :
    seen.insert key = ⟨seen.keys ++ [key]⟩ := by
  simp [insert, contains_iff, not_mem]

end SeenKeys

namespace LoadState

/-- The state in which the expansion of a file version begins. -/
def begin (state : LoadState) (entry : FileEntry) : LoadState :=
  { state with
    seen := ⟨state.seen.keys ++ [entry.key]⟩
    accesses := state.accesses ++ [.expand entry] }

/-- The state in which a file version was passed over. -/
def passed (state : LoadState) (entry : FileEntry) : LoadState :=
  (state.did (.skip entry)).logged [.detail (.passedOver entry.key)]

/-- What was done and what was seen in one state is the start of what was in another. -/
structure Precedes (earlier later : LoadState) : Prop where
  accesses : earlier.accesses <+: later.accesses
  seen : earlier.seen.keys <+: later.seen.keys

instance : IsPreorder LoadState Precedes where
  refl _ := ⟨List.prefix_rfl, List.prefix_rfl⟩
  trans _ _ _ first second :=
    ⟨first.accesses.trans second.accesses, first.seen.trans second.seen⟩

theorem precedes_begin (state : LoadState) (entry : FileEntry) :
    Precedes state (state.begin entry) :=
  ⟨List.prefix_append _ _, List.prefix_append _ _⟩

end LoadState

open LoadM

namespace Loader

variable {loader : Loader} {source : FileSource} {context : Context} {load : Text → LoadM Text}
  {entry : FileEntry} {state : LoadState}

theorem fetch_of_cached {content : Text} (found : state.cache.find? entry.key = some content) :
    (loader.fetch source entry).run.run state = (.ok content,
      { state with
        cache := { state.cache with hits := state.cache.hits + 1 }
        accesses := state.accesses ++ [.fetch entry]
        log := state.log ++ [.detail (.found entry.key)] }) := by
  simp only [fetch, run_run_bind, result_record, after_record, result_ask, after_ask, Cache.ask,
    LoadState.did_cache, found]
  rfl

theorem fetch_of_unreadable {failure : FileFailure}
    (absent : state.cache.find? entry.key = none)
    (unreadable : source.read entry.path = .error failure) :
    (loader.fetch source entry).run.run state = (.error (.file failure),
      { state with
        cache := { state.cache with misses := state.cache.misses + 1 }
        accesses := state.accesses ++ [.fetch entry, .read entry.path] }) := by
  simp only [fetch, run_run_bind, result_record, after_record, result_ask, after_ask, Cache.ask,
    absent, result_read, after_read, unreadable, Except.mapError, LoadState.did,
    List.append_assoc, List.cons_append, List.nil_append]

theorem fetch_of_read {bytes : Bytes} (absent : state.cache.find? entry.key = none)
    (answer : source.read entry.path = .ok bytes) :
    (loader.fetch source entry).run.run state =
      (.ok (Content.process loader.minify entry.path bytes).1,
      { state with
        cache := { state.cache with misses := state.cache.misses + 1 }.insert entry.key
          (Content.process loader.minify entry.path bytes).1
        accesses := state.accesses ++ [.fetch entry, .read entry.path]
        log := state.log ++ ((Content.process loader.minify entry.path bytes).2.map .notice ++
          [.detail (.stored entry.key)]) }) := by
  simp only [fetch, run_run_bind, result_record, after_record, result_ask, after_ask, Cache.ask,
    absent, result_read, after_read, answer, Except.mapError, result_report, after_report,
    result_tell, after_tell, result_store, after_store, run_run_pure, LoadState.did,
    LoadState.logged, List.append_assoc, List.cons_append, List.nil_append, List.map_cons,
    List.map_nil]

/-- The content of a file version is cached, or cannot be read, or is read and cached. -/
theorem fetch_cases (loader : Loader) (source : FileSource) (entry : FileEntry)
    (state : LoadState) :
    (∃ content, state.cache.find? entry.key = some content ∧
      (loader.fetch source entry).run.run state = (.ok content,
        { state with
          cache := { state.cache with hits := state.cache.hits + 1 }
          accesses := state.accesses ++ [.fetch entry]
          log := state.log ++ [.detail (.found entry.key)] })) ∨
    (∃ failure, state.cache.find? entry.key = none ∧ source.read entry.path = .error failure ∧
      (loader.fetch source entry).run.run state = (.error (.file failure),
        { state with
          cache := { state.cache with misses := state.cache.misses + 1 }
          accesses := state.accesses ++ [.fetch entry, .read entry.path] })) ∨
    (∃ bytes, state.cache.find? entry.key = none ∧ source.read entry.path = .ok bytes ∧
      (loader.fetch source entry).run.run state =
        (.ok (Content.process loader.minify entry.path bytes).1,
        { state with
          cache := { state.cache with misses := state.cache.misses + 1 }.insert entry.key
            (Content.process loader.minify entry.path bytes).1
          accesses := state.accesses ++ [.fetch entry, .read entry.path]
          log := state.log ++ ((Content.process loader.minify entry.path bytes).2.map .notice ++
            [.detail (.stored entry.key)]) })) := by
  cases found : state.cache.find? entry.key with
  | some content => exact Or.inl ⟨content, rfl, fetch_of_cached found⟩
  | none =>
      cases answer : source.read entry.path with
      | error failure => exact Or.inr (Or.inl ⟨failure, rfl, rfl, fetch_of_unreadable found answer⟩)
      | ok bytes => exact Or.inr (Or.inr ⟨bytes, rfl, rfl, fetch_of_read found answer⟩)

theorem seen_after_fetch (loader : Loader) (source : FileSource) (entry : FileEntry)
    (state : LoadState) : ((loader.fetch source entry).after state).seen = state.seen := by
  rcases loader.fetch_cases source entry state with
    ⟨content, -, ran⟩ | ⟨failure, -, -, ran⟩ | ⟨bytes, -, -, ran⟩ <;>
  · rw [after, ran]

/-- Fetching asks for the content of a file version and at most reads the file then. -/
theorem accesses_after_fetch (loader : Loader) (source : FileSource) (entry : FileEntry)
    (state : LoadState) :
    ∃ made, ((loader.fetch source entry).after state).accesses = state.accesses ++ made ∧
      (made = [.fetch entry] ∨ made = [.fetch entry, .read entry.path]) := by
  rcases loader.fetch_cases source entry state with
    ⟨content, -, ran⟩ | ⟨failure, -, -, ran⟩ | ⟨bytes, -, -, ran⟩ <;> rw [after, ran]
  · exact ⟨_, rfl, Or.inl rfl⟩
  · exact ⟨_, rfl, Or.inr rfl⟩
  · exact ⟨_, rfl, Or.inr rfl⟩

theorem run_markSeen_of_seen {α : Type} {key : Key} {f : Bool → LoadM α}
    (seen : key ∈ state.seen.keys) :
    (markSeen key >>= f).run.run state = (f false).run.run state := by
  rw [run_run_bind, result_markSeen, after_markSeen, SeenKeys.contains_iff.mpr seen,
    SeenKeys.insert_of_mem seen]
  rfl

theorem run_markSeen_of_new {α : Type} {key : Key} {f : Bool → LoadM α}
    (new : key ∉ state.seen.keys) :
    (markSeen key >>= f).run.run state =
      (f true).run.run { state with seen := ⟨state.seen.keys ++ [key]⟩ } := by
  have unseen : state.seen.contains key = false := by
    rw [Bool.eq_false_iff]
    exact fun seen => new (SeenKeys.contains_iff.mp seen)
  rw [run_run_bind, result_markSeen, after_markSeen, unseen, SeenKeys.insert_of_not_mem new]
  rfl

/-- A file version whose key was seen is passed over. -/
theorem expandEntry_of_seen (seen : entry.key ∈ state.seen.keys) :
    (loader.expandEntry source context load entry).run.run state =
      (.ok [], state.passed entry) := by
  rw [expandEntry, run_markSeen_of_seen seen]
  rfl

/-- A file version whose key was not seen is expanded. -/
theorem expandEntry_of_new (new : entry.key ∉ state.seen.keys) :
    (loader.expandEntry source context load entry).run.run state =
      (loader.expandNew source context load entry).run.run (state.begin entry) := by
  rw [expandEntry, run_markSeen_of_new new]
  rfl

/-- A new file version that is read is scanned, and then its inclusions are put in place. -/
theorem expandEntry_of_read {bytes : Bytes} (content : Text)
    (new : entry.key ∉ state.seen.keys) (absent : state.cache.find? entry.key = none)
    (answer : source.read entry.path = .ok bytes)
    (processed : Content.process loader.minify entry.path bytes = (content, [])) :
    (loader.expandEntry source context load entry).run.run state =
      (splice load
          (Scan.run context loader.maxSubstitutions (loader.embed context content)).text
          (Scan.run context loader.maxSubstitutions (loader.embed context
            content)).inclusions).run.run
        { cache := { state.cache with misses := state.cache.misses + 1 }.insert entry.key content
          seen := ⟨state.seen.keys ++ [entry.key]⟩
          accesses := state.accesses ++ [.expand entry, .fetch entry, .read entry.path,
            .scan entry content]
          log := state.log ++ .detail (.stored entry.key) ::
            ((Scan.run context loader.maxSubstitutions (loader.embed context content)).notices
              loader.maxSubstitutions).map .notice } := by
  have fetched : (loader.fetch source entry).run.run (state.begin entry) = _ :=
    fetch_of_read absent answer
  rw [expandEntry_of_new new, expandNew, run_run_bind]
  simp only [result, after, fetched, processed]
  rw [run_run_bind, result_record, after_record, run_run_bind, result_report, after_report]
  simp [LoadState.begin, LoadState.did, LoadState.logged]

/-- The state in which a load has listed the files at a view path. -/
def afterListing (loader : Loader) (source : FileSource) (viewPath : Text) (state : LoadState) :
    LoadState :=
  state.walked source (.loading (loader.root.resolve viewPath)) (loader.root.resolve viewPath)

@[simp]
theorem cache_afterListing (loader : Loader) (source : FileSource) (viewPath : Text)
    (state : LoadState) : (loader.afterListing source viewPath state).cache = state.cache := rfl

@[simp]
theorem seen_afterListing (loader : Loader) (source : FileSource) (viewPath : Text)
    (state : LoadState) : (loader.afterListing source viewPath state).seen = state.seen := rfl

/-- A load goes on with the expansions of the files that it has listed. -/
theorem expandWithin_of_walked {nesting : Nat} {viewPath : Text} {entries : List FileEntry}
    (walked : source.walk (loader.root.resolve viewPath) = .ok entries) (state : LoadState) :
    (loader.expandWithin source context (nesting + 1) viewPath).run.run state =
      (loader.expandEntries source context (loader.expandWithin source context nesting)
        entries).run.run (loader.afterListing source viewPath state) := by
  rw [expandWithin, run_run_bind, result_walk, walked, after_walk]
  rfl

theorem expandEntries_singleton (loader : Loader) (source : FileSource) (context : Context)
    (load : Text → LoadM Text) (entry : FileEntry) :
    loader.expandEntries source context load [entry] =
      loader.expandEntry source context load entry := by
  simp [expandEntries]

theorem splice_cons (load : Text → LoadM Text) (text tag path : Text)
    (inclusions : List (Text × Text)) :
    splice load text ((tag, path) :: inclusions) =
      load path >>= fun included => splice load (Text.replaceAll tag included text) inclusions := by
  simp [splice]

/-! ## What every load keeps -/

section Keeps

variable {related : LoadState → LoadState → Prop} [IsPreorder LoadState related]

theorem keeps_splice (nested : ∀ path, Keeps related (load path)) (text : Text)
    (inclusions : List (Text × Text)) : Keeps related (splice load text inclusions) := by
  apply keeps_foldlM
  intro text inclusion _
  exact keeps_bind (nested inclusion.2) fun _ => keeps_pure _

theorem keeps_expandEntries {entries : List FileEntry}
    (each : ∀ entry ∈ entries, Keeps related (loader.expandEntry source context load entry)) :
    Keeps related (loader.expandEntries source context load entries) := by
  apply keeps_foldlM
  intro output entry entry_mem
  exact keeps_bind (each entry entry_mem) fun _ => keeps_pure _

/-- What listing files keeps, a computation keeps that begins with it, if the rest does so for the
files listed. -/
theorem keeps_walk_bind {α : Type} {purpose : Detail} {path : Path}
    {f : List FileEntry → LoadM α}
    (walks : ∀ purpose path, Keeps related (LoadM.walk source purpose path))
    (next : ∀ entries, source.walk path = .ok entries → Keeps related (f entries)) :
    Keeps related (LoadM.walk source purpose path >>= f) := by
  intro state
  have walked := walks purpose path state
  cases outcome : source.walk path with
  | error failure =>
      rw [after_bind_of_error (by simpa using outcome)]
      exact walked
  | ok entries =>
      rw [after_bind_of_ok (by simpa using outcome)]
      exact trans_of related walked (next entries outcome _)

/-- What expanding one file version keeps, if the loads of its inclusions do, every load keeps. -/
theorem keeps_expandWithin
    (walks : ∀ purpose path, Keeps related (LoadM.walk source purpose path))
    (expands : ∀ load : Text → LoadM Text, (∀ path, Keeps related (load path)) →
      ∀ entry ∈ source.versions, Keeps related (loader.expandEntry source context load entry))
    (nesting : Nat) (viewPath : Text) :
    Keeps related (loader.expandWithin source context nesting viewPath) := by
  induction nesting generalizing viewPath with
  | zero => exact keeps_pure _
  | succ nesting ih =>
      apply keeps_walk_bind walks
      intro entries walked
      apply keeps_expandEntries
      intro entry entry_mem
      exact expands _ ih entry (source.mem_versions walked entry_mem)

end Keeps

/-! ## Two loads side by side -/

section Agree

variable {admissible : LoadState → Prop} {related : LoadState → LoadState → Prop}
  {context' : Context} {loader' : Loader} {load' : Text → LoadM Text}

/-- What both runs record and write into their logs keeps them related. -/
structure Parallel (related : LoadState → LoadState → Prop) : Prop where
  did : ∀ {first second} access, related first second →
    related (first.did access) (second.did access)
  logged : ∀ {first second} entries, related first second →
    related (first.logged entries) (second.logged entries)

theorem Parallel.agree_record (parallel : Parallel related) (access : Access) :
    Agree admissible related Eq (record access) (record access) :=
  fun _ _ start _ => ⟨rfl, parallel.did access start⟩

theorem Parallel.agree_report (parallel : Parallel related) (notices : List Notice) :
    Agree admissible related Eq (report notices) (report notices) :=
  fun _ _ start _ => ⟨rfl, parallel.logged _ start⟩

/-- Listing the files at a path takes both runs to the same entries. -/
theorem agree_walk (parallel : Parallel related) (purpose : Detail) (path : Path) :
    Agree admissible related
      (fun entries entries' => entries' = entries ∧ source.walk path = .ok entries)
      (LoadM.walk source purpose path) (LoadM.walk source purpose path) := by
  intro first second start _
  rw [result_walk, result_walk, after_walk, after_walk]
  refine ⟨?_, parallel.logged _ (parallel.did _ start)⟩
  cases outcome : source.walk path with
  | error failure => rfl
  | ok entries => exact ⟨rfl, rfl⟩

theorem agree_splice (nested : ∀ path, Agree admissible related Eq (load path) (load' path))
    (earlier : ∀ path, Keeps (Reflects admissible) (load path))
    (text : Text) (inclusions : List (Text × Text)) :
    Agree admissible related Eq (splice load text inclusions) (splice load' text inclusions) := by
  apply agree_foldlM
  · rintro ⟨tag, path⟩ _ text _ rfl
    apply agree_bind (nested path)
    · rintro included _ rfl
      exact agree_pure rfl
    · exact fun _ => keeps_pure _
  · rintro text ⟨tag, path⟩ _
    exact keeps_bind (earlier path) fun _ => keeps_pure _
  · rfl

theorem agree_expandNew
    (fetches : Agree admissible related Eq (loader.fetch source entry)
      (loader.fetch source entry))
    (parallel : Parallel related)
    (nested : ∀ path, Agree admissible related Eq (load path) (load' path))
    (reflects : ∀ earlier later, LoadState.Precedes earlier later →
      Reflects admissible earlier later)
    (earlier : ∀ path, Keeps (Reflects admissible) (load path)) :
    Agree admissible related Eq (loader.expandNew source context load entry)
      (loader.expandNew source context load' entry) := by
  have spliced : ∀ text inclusions, Keeps (Reflects admissible) (splice load text inclusions) :=
    keeps_splice earlier
  have reported : ∀ notices, Keeps (Reflects admissible) (report notices) :=
    fun _ _ => reflects _ _ ⟨List.prefix_rfl, List.prefix_rfl⟩
  have recorded : ∀ access, Keeps (Reflects admissible) (record access) :=
    fun _ _ => reflects _ _ ⟨List.prefix_append _ _, List.prefix_rfl⟩
  apply agree_bind fetches
  · rintro content _ rfl
    apply agree_bind (parallel.agree_record _)
    · rintro _ _ -
      apply agree_bind (parallel.agree_report _)
      · rintro _ _ -
        exact agree_splice nested earlier _ _
      · exact fun _ => spliced _ _
    · exact fun _ => keeps_bind (reported _) fun _ => spliced _ _
  · exact fun _ => keeps_bind (recorded _) fun _ => keeps_bind (reported _) fun _ => spliced _ _

theorem agree_expandEntry
    (sameSeen : ∀ first second, related first second → second.seen = first.seen)
    (parallel : Parallel related)
    (new : ∀ first second, related first second → entry.key ∉ first.seen.keys →
      admissible ((loader.expandNew source context load entry).after (first.begin entry)) →
      Matches Eq ((loader.expandNew source context load entry).result (first.begin entry))
          ((loader'.expandNew source context' load' entry).result (second.begin entry)) ∧
        related ((loader.expandNew source context load entry).after (first.begin entry))
          ((loader'.expandNew source context' load' entry).after (second.begin entry))) :
    Agree admissible related Eq (loader.expandEntry source context load entry)
      (loader'.expandEntry source context' load' entry) := by
  intro first second start allowed
  by_cases seen : entry.key ∈ first.seen.keys
  · have seen' : entry.key ∈ second.seen.keys := by
      rwa [sameSeen first second start]
    rw [result, after, expandEntry_of_seen seen, result, after, expandEntry_of_seen seen']
    exact ⟨rfl, parallel.logged _ (parallel.did _ start)⟩
  · have new' : entry.key ∉ second.seen.keys := by
      rwa [sameSeen first second start]
    rw [after, expandEntry_of_new seen] at allowed
    rw [result, after, expandEntry_of_new seen, result, after, expandEntry_of_new new']
    exact new first second start seen allowed

theorem agree_expandEntries {entries : List FileEntry}
    (each : ∀ entry ∈ entries, Agree admissible related Eq
      (loader.expandEntry source context load entry)
      (loader'.expandEntry source context' load' entry))
    (earlier : ∀ entry ∈ entries,
      Keeps (Reflects admissible) (loader.expandEntry source context load entry)) :
    Agree admissible related Eq (loader.expandEntries source context load entries)
      (loader'.expandEntries source context' load' entries) := by
  apply agree_foldlM
  · rintro entry entry_mem output _ rfl
    apply agree_bind (each entry entry_mem)
    · rintro expansion _ rfl
      exact agree_pure rfl
    · exact fun _ => keeps_pure _
  · intro output entry entry_mem
    exact keeps_bind (earlier entry entry_mem) fun _ => keeps_pure _
  · rfl

/-- Two loads of a view agree if nothing that they do drives their states apart. -/
theorem agree_expandWithin
    (sameSeen : ∀ first second, related first second → second.seen = first.seen)
    (parallel : Parallel related)
    (begins : ∀ first second entry, related first second →
      related (first.begin entry) (second.begin entry))
    (fetches : ∀ entry ∈ source.versions, Agree (fun _ => True) related Eq
      (loader.fetch source entry) (loader.fetch source entry))
    (nesting : Nat) (viewPath : Text) :
    Agree (fun _ => True) related Eq (loader.expandWithin source context nesting viewPath)
      (loader.expandWithin source context nesting viewPath) := by
  induction nesting generalizing viewPath with
  | zero => exact agree_pure rfl
  | succ nesting ih =>
      rw [expandWithin]
      apply agree_bind (agree_walk parallel _ _)
      · rintro entries _ ⟨rfl, walked⟩
        apply agree_expandEntries
        · intro entry entry_mem
          apply agree_expandEntry sameSeen parallel
          intro first second start _ _
          exact agree_expandNew (fetches entry (source.mem_versions walked entry_mem)) parallel ih
            (fun _ _ _ _ => trivial) (fun _ _ _ => trivial) _ _
            (begins first second entry start) trivial
        · exact fun _ _ _ _ => trivial
      · exact fun _ _ _ => trivial

end Agree

/-! ## States only grow -/

open LoadState

theorem precedes_fetch (loader : Loader) (source : FileSource) (entry : FileEntry) :
    Keeps Precedes (loader.fetch source entry) := by
  intro state
  rcases loader.fetch_cases source entry state with
    ⟨content, -, ran⟩ | ⟨failure, -, -, ran⟩ | ⟨bytes, -, -, ran⟩ <;>
  · rw [after, ran]
    exact ⟨List.prefix_append _ _, List.prefix_rfl⟩

theorem precedes_walk (source : FileSource) (purpose : Detail) (path : Path) :
    Keeps Precedes (LoadM.walk source purpose path) := by
  intro state
  rw [after_walk]
  exact ⟨List.prefix_append _ _, List.prefix_rfl⟩

theorem precedes_record (access : Access) : Keeps Precedes (record access) :=
  fun _ => ⟨List.prefix_append _ _, List.prefix_rfl⟩

theorem precedes_report (notices : List Notice) : Keeps Precedes (report notices) :=
  fun _ => ⟨List.prefix_rfl, List.prefix_rfl⟩

theorem precedes_expandNew (nested : ∀ path, Keeps Precedes (load path)) (entry : FileEntry) :
    Keeps Precedes (loader.expandNew source context load entry) := by
  apply keeps_bind (loader.precedes_fetch source entry)
  intro content
  apply keeps_bind (precedes_record _)
  intro _
  apply keeps_bind (precedes_report _)
  intro _
  exact keeps_splice nested _ _

theorem precedes_expandEntry (nested : ∀ path, Keeps Precedes (load path)) (entry : FileEntry) :
    Keeps Precedes (loader.expandEntry source context load entry) := by
  intro state
  by_cases seen : entry.key ∈ state.seen.keys
  · rw [after, expandEntry_of_seen seen]
    exact ⟨List.prefix_append _ _, List.prefix_rfl⟩
  · rw [after, expandEntry_of_new seen]
    exact trans_of Precedes (precedes_begin state entry) (precedes_expandNew nested entry _)

theorem precedes_expandWithin (loader : Loader) (source : FileSource) (context : Context)
    (nesting : Nat) (viewPath : Text) :
    Keeps Precedes (loader.expandWithin source context nesting viewPath) := by
  apply keeps_expandWithin (precedes_walk source)
  intro load nested entry _
  exact precedes_expandEntry nested entry

/-! ## Loading again -/

/-- Once the keys that are seen in a state are seen, a computation comes to the empty text and
changes neither the seen keys nor the cache. -/
def Spent (x : LoadM Text) (state : LoadState) : Prop :=
  ∀ later, state.seen.keys ⊆ later.seen.keys →
    x.result later = .ok [] ∧ (x.after later).seen = later.seen ∧
      (x.after later).cache = later.cache

theorem Spent.of_precedes {x : LoadM Text} {later : LoadState} (spent : Spent x state)
    (precedes : Precedes state later) : Spent x later :=
  fun last subset => spent last fun _ key_mem => subset (precedes.seen.subset key_mem)

theorem key_mem_after_expandEntry (nested : ∀ path, Keeps Precedes (load path))
    (entry : FileEntry) (state : LoadState) :
    entry.key ∈ ((loader.expandEntry source context load entry).after state).seen.keys := by
  by_cases seen : entry.key ∈ state.seen.keys
  · rw [after, expandEntry_of_seen seen]
    exact seen
  · rw [after, expandEntry_of_new seen]
    apply (precedes_expandNew nested entry (state.begin entry)).seen.subset
    simp [begin]

theorem key_mem_after_expandEntries (nested : ∀ path, Keeps Precedes (load path))
    {entries : List FileEntry} {text : Text}
    (succeeds : (loader.expandEntries source context load entries).result state = .ok text) :
    ∀ entry ∈ entries,
      entry.key ∈ ((loader.expandEntries source context load entries).after state).seen.keys := by
  apply holds_of_foldlM_eq_ok (fun entry state => entry.key ∈ state.seen.keys) _ _ succeeds
  · intro output entry _ state
    rw [after_bind_pure]
    exact key_mem_after_expandEntry nested entry state
  · intro output entry _ other state
    rw [after_bind_pure]
    exact fun mem => (precedes_expandEntry nested entry state).seen.subset mem

/-- What is told about file versions that are passed over. -/
def passings (entries : List FileEntry) : List Detail :=
  entries.map fun entry => .passedOver entry.key

/-- File versions whose keys were seen are passed over one after the other. -/
theorem expandEntries_of_seen {entries : List FileEntry}
    (seen : ∀ entry ∈ entries, entry.key ∈ state.seen.keys) :
    (loader.expandEntries source context load entries).run.run state =
      (.ok [], { state with
        accesses := state.accesses ++ entries.map .skip
        log := state.log ++ (passings entries).map .detail }) := by
  rw [expandEntries]
  induction entries generalizing state with
  | nil =>
      rw [List.foldlM_nil, run_run_pure, passings, List.map_nil, List.map_nil, List.map_nil,
        List.append_nil, List.append_nil]
  | cons entry entries ih =>
      have skipped : (loader.expandEntry source context load entry).run.run state =
          (.ok [], state.passed entry) := expandEntry_of_seen (seen entry List.mem_cons_self)
      have stepped : (do
          let expansion ← loader.expandEntry source context load entry
          return [] ++ expansion : LoadM Text).run.run state = (.ok [], state.passed entry) := by
        rw [run_run_bind, result, after, skipped]
        rfl
      have others : ∀ other ∈ entries, other.key ∈ (state.passed entry).seen.keys :=
        fun other other_mem => seen other (List.mem_cons_of_mem entry other_mem)
      rw [List.foldlM_cons, run_run_bind, result, after, stepped]
      refine (ih others).trans ?_
      simp [LoadState.passed, LoadState.did, LoadState.logged, passings]

/-- Expanding file versions whose keys were seen comes to nothing. -/
theorem spent_expandEntries {entries : List FileEntry}
    (seen : ∀ entry ∈ entries, entry.key ∈ state.seen.keys) :
    Spent (loader.expandEntries source context load entries) state := by
  intro later subset
  have passed : (loader.expandEntries source context load entries).run.run later =
      (.ok [], { later with
        accesses := later.accesses ++ entries.map .skip
        log := later.log ++ (passings entries).map .detail }) :=
    expandEntries_of_seen fun entry entry_mem => subset (seen entry entry_mem)
  rw [result, after, passed]
  exact ⟨rfl, rfl, rfl⟩

/-- After a load of a view has succeeded, loading the view again comes to nothing. -/
theorem spent_expandWithin {nesting : Nat} {viewPath text : Text}
    (succeeds : (loader.expandWithin source context nesting viewPath).result state = .ok text) :
    Spent (loader.expandWithin source context nesting viewPath)
      ((loader.expandWithin source context nesting viewPath).after state) := by
  cases nesting with
  | zero => exact fun later _ => ⟨rfl, rfl, rfl⟩
  | succ nesting =>
      rcases result_bind_eq_ok succeeds with ⟨entries, walked, succeeds'⟩
      rw [result_walk] at walked
      rw [after_walk] at succeeds'
      have seen := key_mem_after_expandEntries
        (loader.precedes_expandWithin source context nesting) succeeds'
      intro later subset
      rw [after, expandWithin_of_walked walked] at subset
      rw [result, after, expandWithin_of_walked walked]
      exact spent_expandEntries seen _ subset

end Loader

end Pageweave
