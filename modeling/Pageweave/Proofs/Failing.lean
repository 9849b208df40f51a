import Mathlib
import Pageweave.Files.Flat
import Pageweave.Proofs.Accounting
import Pageweave.Proofs.Pieces

/-!
# Failing

The first failure of a call for files ends the task in which the call is made, however deep the load
is nested that makes it. What was read before it stays in the cache, and nothing else is added to
it. In particular there is nothing under the key of a file version that could not be read: whoever
comes to it next asks the reader again.

`Proceeds` says this of all that is done up to the end of a task or its failure, and it is kept from
one step to the next.
-/

namespace Pageweave

open LoadM

namespace Timeline

/-- The failure that a call ends with which is made when there have been so many calls. -/
def failure? (timeline : Timeline) (calls : Nat) : Access → Option ViewFailure
  | .walk path =>
      match (timeline.files calls).walk path with
      | .ok _ => none
      | .error failure => some failure
  | .read path =>
      match (timeline.files calls).read path with
      | .ok _ => none
      | .error failure => some (.file failure)
  | .skip _ | .expand _ | .fetch _ | .scan _ _ => none

theorem failure?_of_not_call {timeline : Timeline} {calls : Nat} {access : Access}
    (noCall : access.isCall = false) : timeline.failure? calls access = none := by
  cases access with
  | walk path => cases noCall
  | read path => cases noCall
  | skip _ | expand _ | fetch _ | scan _ _ => rfl

/-- The failures of the calls in a log that begins when there have been so many calls. -/
def failures (timeline : Timeline) : (calls : Nat) → List Access → List ViewFailure
  | _, [] => []
  | calls, access :: accesses =>
      (timeline.failure? calls access).toList ++
        timeline.failures (if access.isCall then calls + 1 else calls) accesses

theorem failures_append (timeline : Timeline) (calls : Nat) (front back : List Access) :
    timeline.failures calls (front ++ back) = timeline.failures calls front ++
      timeline.failures (calls + front.countP Access.isCall) back := by
  induction front generalizing calls with
  | nil => rfl
  | cons access front ih =>
      rw [List.cons_append, failures, failures, ih, Access.countP_isCall_cons, List.append_assoc]

end Timeline

/-- From the earlier to the later state something was done up to a failure, if there is one: it is
that of the last thing that was done, nothing before it failed, and the contents of all that was
read were added to the cache. -/
structure Proceeds (timeline : Timeline) (minify : Bool) (earlier : LoadState)
    (outcome : Option ViewFailure) (later : LoadState) (made : List Access)
    (added : List (Key × Text)) : Prop where
  booked : Booked timeline earlier later made added
  contents : added = (timeline.readings earlier.calls made).filterMap (Reading.kept? minify)
  failures : timeline.failures earlier.calls made = outcome.toList
  last : ∀ failure ∈ outcome, ∃ front call, made = front ++ [call] ∧
    timeline.failure? (earlier.calls + front.countP Access.isCall) call = some failure
  unread : ∀ reading ∈ timeline.readings earlier.calls made, reading.key? = none →
    outcome ≠ none ∧ later.cache.find? reading.entry.key = none

namespace Proceeds

variable {timeline : Timeline} {minify : Bool} {earlier middle later state : LoadState}
  {outcome : Option ViewFailure} {made made' : List Access} {added added' : List (Key × Text)}

theorem trans (first : Proceeds timeline minify earlier none middle made added)
    (second : Proceeds timeline minify middle outcome later made' added') :
    Proceeds timeline minify earlier outcome later (made ++ made') (added ++ added') where
  booked := first.booked.trans second.booked
  contents := by
    rw [timeline.readings_append _ _ second.booked.opens, List.filterMap_append, ← first.contents,
      ← first.booked.calls_eq, ← second.contents]
  failures := by
    rw [timeline.failures_append, first.failures, ← first.booked.calls_eq, second.failures]
    rfl
  last := by
    intro failure failure_mem
    rcases second.last failure failure_mem with ⟨front, call, rfl, failed⟩
    refine ⟨made ++ front, call, (List.append_assoc _ _ _).symm, ?_⟩
    rwa [List.countP_append, ← Nat.add_assoc, ← first.booked.calls_eq]
  unread := by
    intro reading reading_mem failed
    rw [timeline.readings_append _ _ second.booked.opens, List.mem_append,
      ← first.booked.calls_eq] at reading_mem
    rcases reading_mem with reading_mem | reading_mem
    · exact absurd rfl (first.unread reading reading_mem failed).1
    · exact second.unread reading reading_mem failed

/-- Nothing is read, and nothing fails. -/
theorem of_quiet (booked : Booked timeline earlier later made [])
    (unread : timeline.readings earlier.calls made = [])
    (noFailure : timeline.failures earlier.calls made = []) :
    Proceeds timeline minify earlier none later made [] where
  booked := booked
  contents := by rw [unread]; rfl
  failures := noFailure
  last := by simp
  unread := by simp [unread]

theorem of_walk (timeline : Timeline) (minify : Bool) (purpose : Detail) (path : Path)
    (state : LoadState) :
    Proceeds timeline minify state
      ((LoadM.walk (timeline.files state.calls) purpose path).failure? state)
      (state.walked (timeline.files state.calls) purpose path) [.walk path] [] := by
  have outcome_eq : (LoadM.walk (timeline.files state.calls) purpose path).failure? state =
      timeline.failure? state.calls (.walk path) := by
    rw [LoadM.failure?, result_walk, Timeline.failure?]
    cases (timeline.files state.calls).walk path <;> rfl
  rw [outcome_eq]
  exact {
    booked := Booked.of_walked timeline state purpose path
    contents := by simp
    failures := List.append_nil _
    last := fun failure failed => ⟨[], .walk path, rfl, failed⟩
    unread := by simp }

section Fetch

variable {entry : FileEntry} {loader : Loader}

theorem of_cached (timeline : Timeline) {content : Text}
    (found : state.cache.find? entry.key = some content) :
    Proceeds timeline loader.minify state
      ((loader.fetch (timeline.files state.calls) entry).failure? state)
      ((loader.fetch (timeline.files state.calls) entry).after state) [.fetch entry] [] := by
  rw [failure?_of_ok (congrArg Prod.fst (Loader.fetch_of_cached found))]
  exact of_quiet (Booked.of_cached timeline found) (timeline.readings_singleton _ _) rfl

theorem of_unreadable {failure : FileFailure} (absent : state.cache.find? entry.key = none)
    (unreadable : (timeline.files state.calls).read entry.path = .error failure) :
    Proceeds timeline loader.minify state
      ((loader.fetch (timeline.files state.calls) entry).failure? state)
      ((loader.fetch (timeline.files state.calls) entry).after state)
      [.fetch entry, .read entry.path] [] := by
  rw [failure?_of_error (congrArg Prod.fst (Loader.fetch_of_unreadable absent unreadable))]
  have failed : timeline.failure? state.calls (.read entry.path) = some (.file failure) := by
    rw [Timeline.failure?, unreadable]
  have booked : Booked timeline state
      ((loader.fetch (timeline.files state.calls) entry).after state)
      [.fetch entry, .read entry.path] [] :=
    Booked.of_unreadable absent unreadable
  exact {
    booked
    contents := by simp [Reading.kept?, unreadable]
    failures := by
      change (timeline.failure? state.calls (.read entry.path)).toList ++ [] = _
      rw [failed]
      rfl
    last := by
      rintro _ ⟨⟩
      exact ⟨[.fetch entry], .read entry.path, rfl, failed⟩
    unread := by
      intro reading reading_mem _
      rw [Timeline.readings_pair, List.mem_singleton] at reading_mem
      rw [reading_mem, booked.find?_eq_none_iff, ← booked.keys]
      exact ⟨Option.some_ne_none _, absent, List.not_mem_nil⟩ }

theorem of_read {bytes : Bytes} (absent : state.cache.find? entry.key = none)
    (answer : (timeline.files state.calls).read entry.path = .ok bytes) :
    Proceeds timeline loader.minify state
      ((loader.fetch (timeline.files state.calls) entry).failure? state)
      ((loader.fetch (timeline.files state.calls) entry).after state)
      [.fetch entry, .read entry.path]
      [(entry.key, (Content.process loader.minify entry.path bytes).1)] := by
  rw [failure?_of_ok (congrArg Prod.fst (Loader.fetch_of_read absent answer))]
  exact {
    booked := Booked.of_read absent answer
    contents := by simp [Reading.kept?, answer]
    failures := by
      change (timeline.failure? state.calls (.read entry.path)).toList ++ [] = _
      rw [Timeline.failure?, answer]
      rfl
    last := by simp
    unread := by
      intro reading reading_mem failed
      rw [Timeline.readings_pair, List.mem_singleton] at reading_mem
      rw [reading_mem, Reading.key?, answer] at failed
      cases failed }

end Fetch

end Proceeds

/-- Something is done up to a failure, if there is one. -/
def Timeline.Runs (timeline : Timeline) (minify : Bool) (earlier : LoadState)
    (outcome : Option ViewFailure) (later : LoadState) : Prop :=
  ∃ made added, Proceeds timeline minify earlier outcome later made added

theorem Timeline.steps_runs (timeline : Timeline) (loader : Loader) :
    timeline.Steps loader (timeline.Runs loader.minify) where
  rests := fun _ => ⟨_, _, Proceeds.of_quiet (Booked.of_same rfl rfl) rfl rfl⟩
  goesOn := fun ⟨_, _, first⟩ ⟨_, _, second⟩ => ⟨_, _, first.trans second⟩
  walks := by
    intro purpose path state
    change timeline.Runs _ _
      ((LoadM.walk (timeline.files state.calls) purpose path).failure? state)
      ((LoadM.walk (timeline.files state.calls) purpose path).after state)
    rw [after_walk]
    exact ⟨_, _, Proceeds.of_walk timeline loader.minify purpose path state⟩
  fetches := by
    intro entry state
    change timeline.Runs _ _
      ((loader.fetch (timeline.files state.calls) entry).failure? state)
      ((loader.fetch (timeline.files state.calls) entry).after state)
    rcases loader.fetch_cases (timeline.files state.calls) entry state with
      ⟨content, found, -⟩ | ⟨failure, absent, unreadable, -⟩ | ⟨bytes, absent, answer, -⟩
    · exact ⟨_, _, Proceeds.of_cached timeline found⟩
    · exact ⟨_, _, Proceeds.of_unreadable absent unreadable⟩
    · exact ⟨_, _, Proceeds.of_read absent answer⟩
  does := by
    intro state access noCall noFetch
    have noFailure : timeline.failures state.calls [access] = [] := by
      rw [failures, failure?_of_not_call noCall]
      rfl
    have noRead := Access.readPath?_of_not_call noCall
    exact ⟨_, _, Proceeds.of_quiet (Booked.of_did timeline state noFetch noRead)
      (timeline.readings_singleton _ _) noFailure⟩
  notes := fun _ _ _ => ⟨_, _, Proceeds.of_quiet (Booked.of_same rfl rfl) rfl rfl⟩

/-- From a state on, whatever is done, a file version with the key is not fetched without being
read, unless its content has been put into the cache before. -/
def Timeline.ReadsAgain (timeline : Timeline) (state : LoadState) (key : Key) : Prop :=
  ∀ tasks front entry back,
    (Task.afterAll timeline tasks state).accesses =
      state.accesses ++ (front ++ .fetch entry :: back) →
    entry.key = key → key ∉ timeline.keysRead state.calls front →
    ∃ rest, back = .read entry.path :: rest

/-- A task that failed stopped with the call that failed first, which is the last thing it did. It
left the cache as it was but for the contents of what it had read, and a file version that it could
not read is read by whoever comes to it next. -/
structure Timeline.FailsCleanly (timeline : Timeline) (minify : Bool) (failure : ViewFailure)
    (earlier later : LoadState) (made : List Access) : Prop where
  accesses : later.accesses = earlier.accesses ++ made
  stops : ∃ front call, made = front ++ [call] ∧
    timeline.failures earlier.calls front = [] ∧
    timeline.failure? (earlier.calls + front.countP Access.isCall) call = some failure
  paths : (timeline.readings earlier.calls made).map (·.entry.path) =
    made.filterMap Access.readPath?
  cached : later.cache.entries =
    ((timeline.readings earlier.calls made).filterMap (Reading.kept? minify)).reverse ++
      earlier.cache.entries
  fresh : ∀ key ∈ timeline.keysRead earlier.calls made, earlier.cache.find? key = none
  distinct : (timeline.keysRead earlier.calls made).Nodup
  unread : ∀ reading ∈ timeline.readings earlier.calls made, reading.key? = none →
    later.cache.find? reading.entry.key = none ∧ timeline.ReadsAgain later reading.entry.key

theorem Timeline.readsAgain_of_absent (timeline : Timeline) {state : LoadState} {key : Key}
    (absent : state.cache.find? key = none) : timeline.ReadsAgain state key := by
  rintro tasks front entry back made_eq rfl unread
  rcases Task.books_afterAll timeline tasks state with ⟨made, added, booked⟩
  rw [booked.accesses, List.append_cancel_left_eq] at made_eq
  exact booked.asks front entry back made_eq absent unread

/-- What is done step by step up to a failure fails cleanly. -/
theorem Timeline.Runs.exists_failsCleanly {timeline : Timeline} {minify : Bool}
    {earlier later : LoadState} {failure : ViewFailure}
    (runs : timeline.Runs minify earlier (some failure) later) :
    ∃ made, timeline.FailsCleanly minify failure earlier later made := by
  rcases runs with ⟨made, added, proceeds⟩
  have booked := proceeds.booked
  refine ⟨made, booked.accesses, ?_, booked.paths, ?_, ?_, ?_, ?_⟩
  · rcases proceeds.last failure rfl with ⟨front, call, rfl, failed⟩
    refine ⟨front, call, rfl, ?_, failed⟩
    have failures := proceeds.failures
    rw [timeline.failures_append, Timeline.failures, failed, Timeline.failures] at failures
    simpa using failures
  · rw [booked.entries, proceeds.contents]
  · rw [← booked.keys]
    exact booked.fresh
  · rw [← booked.keys]
    exact booked.nodup
  · intro reading reading_mem failed
    have absent := (proceeds.unread reading reading_mem failed).2
    exact ⟨absent, timeline.readsAgain_of_absent absent⟩

/-- A load, a preload or a setup that fails, at whatever depth of includes and however the files
change, fails cleanly. -/
theorem Task.failsCleanly (timeline : Timeline) (task : Task) (state : LoadState)
    {failure : ViewFailure} (fails : (task.run timeline).result state = .error failure) :
    ∃ made, timeline.FailsCleanly task.loader.minify failure state
      ((task.run timeline).after state) made := by
  have runs := conforms_run (timeline.steps_runs task.loader) state
  rw [failure?_of_error fails] at runs
  exact runs.exists_failsCleanly

namespace Failing

/-- A page that includes an item. -/
def page : FileEntry := ⟨Path.ofString "/page", 2⟩

/-- The item that the page includes. -/
def item : FileEntry := ⟨Path.ofString "/item", 1⟩

/-- The text of the page. -/
def pageText : Text :=
  "(:include item:)".toList

/-- Why the item cannot be read. -/
def noAccess : SystemError :=
  .described .permissionDenied "Permission denied (os error 13)".toList

/-- The page, and the item that cannot be read. -/
def pageStore : FlatStore where
  files := [
    { path := item.path, content := [], modified := item.modified, refusal := some noAccess },
    { path := page.path, content := Utf8.encode pageText, modified := page.modified }]

/-- How reading the item fails. -/
def unreadable : FileFailure :=
  FlatStore.unreadable item.path noAccess

/-- A loader of the page. -/
def pageLoader : Loader where
  root := ⟨Path.rootDirectory⟩
  minify := true
  contextAnchor := "</head>".toList
  clientVariable := "viewData".toList
  maxSubstitutions := 4096

/-- A load of the page. -/
def pageTask : Task :=
  .load pageLoader {} {} 3 "page".toList

theorem walk_item : pageStore.source.walk (pageLoader.root.resolve "item".toList) = .ok [item] := by
  cbv

theorem walk_page : pageStore.source.walk (pageLoader.root.resolve "page".toList) = .ok [page] := by
  cbv

theorem read_item : pageStore.source.read item.path = .error unreadable := by
  cbv

theorem read_page : pageStore.source.read page.path = .ok (Utf8.encode pageText) := by
  cbv

theorem process_page : Content.process pageLoader.minify page.path (Utf8.encode pageText) =
    (pageText, []) := by
  cbv

theorem embed_page : pageLoader.embed {} pageText = pageText :=
  Snapshot.embed_of_none (by cbv) (by decide)

theorem inclusions_page : (Scan.run {} pageLoader.maxSubstitutions pageText).inclusions =
    [(pageText, "item".toList)] := by
  cbv

section Item

variable {state : LoadState} (new : item.key ∉ state.seen.keys)
  (absent : state.cache.find? item.key = none)

include new absent

theorem expand_item_fails (load : Text → LoadM Text) :
    (pageLoader.expandEntry pageStore.source {} load item).result state =
      .error (.file unreadable) := by
  have absent' : (state.begin item).cache.find? item.key = none := absent
  rw [result, Loader.expandEntry_of_new new, Loader.expandNew]
  apply result_bind_of_error
  rw [result, Loader.fetch_of_unreadable absent' read_item]

theorem load_item_fails (nesting : Nat) :
    (pageLoader.expandWithin pageStore.source {} (nesting + 1) "item".toList).result state =
      .error (.file unreadable) := by
  rw [result, Loader.expandWithin_of_walked walk_item, Loader.expandEntries_singleton]
  apply expand_item_fails
  · exact new
  · exact absent

end Item

theorem pageTask_fails : (pageTask.run (.still pageStore.source)).result {} =
    .error (.file unreadable) := by
  have absent : Cache.find? (Cache.insert { misses := 1 } page.key pageText) item.key = none :=
    Cache.find?_insert_of_ne (by decide) _ _
  rw [pageTask, Task.run, Loader.expandOver_still]
  change (discard (pageLoader.expandWithin pageStore.source {} 3 "page".toList)).result {} = _
  apply result_bind_of_error
  rw [result, Loader.expandWithin_of_walked walk_page, Loader.expandEntries_singleton,
    Loader.expandEntry_of_read pageText List.not_mem_nil rfl read_page process_page,
    embed_page, inclusions_page, Loader.splice_cons]
  exact result_bind_of_error (load_item_fails (by decide) absent 1)

end Failing

/-- A load of the page fails where it includes the item. -/
theorem Task.failsCleanly_page :
    ∃ made, (Timeline.still Failing.pageStore.source).FailsCleanly true
      (.file Failing.unreadable) {}
      ((Failing.pageTask.run (.still Failing.pageStore.source)).after {}) made :=
  failsCleanly (.still Failing.pageStore.source) Failing.pageTask {} Failing.pageTask_fails

end Pageweave
