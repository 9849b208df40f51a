import Mathlib
import Pageweave.Files.Flat
import Pageweave.Proofs.Failing

/-!
# Warm caches

Setting up an engine lists the files under its preload roots and fetches each of them, without
following inclusions. `Timeline.listings` reads off the log of what was done which files were listed
under which path, so that what is warm afterwards can be told from the log alone
(`Engine.warms_setupOver`).

A later load goes through the files in another way, along inclusions that setting up never looked
at. Two facts about it are put together. A file is read only for a version that was listed and
expanded in the load itself (`Timeline.Follows`, by induction on the nesting), and only if the key
of this version was not cached before (`Proceeds.absent_of_mem_readings`). Nothing that engines do
takes a key out of a cache, so no version that is warm is read.
-/

namespace Pageweave

open LoadM

namespace Cache

theorem contains_iff {cache : Cache} {key : Key} :
    cache.contains key = true ↔ cache.find? key ≠ none := by
  rw [contains, Option.isSome_iff_ne_none]

theorem size_insert_le (cache : Cache) (key : Key) (content : Text) :
    (cache.insert key content).size ≤ cache.size + 1 := by
  rw [insert, size, List.length_cons, size]
  exact Nat.succ_le_succ (List.length_filter_le _ _)

end Cache

/-! ## What was listed -/

/-- What was done, each thing with the number of calls before it. -/
def Access.timed : (calls : Nat) → List Access → List (Nat × Access)
  | _, [] => []
  | calls, access :: accesses =>
      (calls, access) :: timed (if access.isCall then calls + 1 else calls) accesses

theorem Access.timed_append (calls : Nat) (front back : List Access) :
    timed calls (front ++ back) =
      timed calls front ++ timed (calls + front.countP isCall) back := by
  induction front generalizing calls with
  | nil => rfl
  | cons access front ih =>
      rw [List.cons_append, timed, timed, ih, countP_isCall_cons, List.cons_append]

theorem Access.mem_of_mem_timed {calls time : Nat} {accesses : List Access} {access : Access}
    (mem : (time, access) ∈ timed calls accesses) : access ∈ accesses := by
  induction accesses generalizing calls with
  | nil => cases mem
  | cons first accesses ih =>
      rcases List.mem_cons.mp mem with same | mem
      · cases same
        exact List.mem_cons_self
      · exact List.mem_cons_of_mem _ (ih mem)

/-- A call is made after those before it, and before the last one has been answered. -/
theorem Access.bounds_of_mem_timed {calls time : Nat} {accesses : List Access} {access : Access}
    (mem : (time, access) ∈ timed calls accesses) (isCall : access.isCall = true) :
    calls ≤ time ∧ time < calls + accesses.countP Access.isCall := by
  induction accesses generalizing calls with
  | nil => cases mem
  | cons first accesses ih =>
      rw [← countP_isCall_cons]
      rcases List.mem_cons.mp mem with same | mem
      · cases same
        rw [if_pos isCall]
        omega
      · have bounds := ih mem
        split at bounds <;> split <;> omega

namespace Timeline

variable {timeline : Timeline}

/-- The files that a call has listed, with the path that they were listed at. -/
def listing? (timeline : Timeline) : Nat × Access → Option (Path × List FileEntry)
  | (calls, .walk path) =>
      match (timeline.files calls).walk path with
      | .ok entries => some (path, entries)
      | .error _ => none
  | (_, .skip _) | (_, .expand _) | (_, .fetch _) | (_, .read _) | (_, .scan _ _) => none

/-- The files that were listed in a log that begins when there have been so many calls, with the
paths that they were listed at. -/
def listings (timeline : Timeline) (calls : Nat) (accesses : List Access) :
    List (Path × List FileEntry) :=
  (Access.timed calls accesses).filterMap timeline.listing?

/-- A file version was listed. -/
def Lists (timeline : Timeline) (calls : Nat) (accesses : List Access) (entry : FileEntry) :
    Prop :=
  ∃ listing ∈ timeline.listings calls accesses, entry ∈ listing.2

theorem listings_append (timeline : Timeline) (calls : Nat) (front back : List Access) :
    timeline.listings calls (front ++ back) = timeline.listings calls front ++
      timeline.listings (calls + front.countP Access.isCall) back := by
  rw [listings, Access.timed_append, List.filterMap_append, listings, listings]

theorem listings_cons_walk {calls : Nat} {path : Path} {entries : List FileEntry}
    (walked : (timeline.files calls).walk path = .ok entries) (accesses : List Access) :
    timeline.listings calls (.walk path :: accesses) =
      (path, entries) :: timeline.listings (calls + 1) accesses := by
  rw [listings, Access.timed, List.filterMap_cons, listing?, walked]
  rfl

theorem listings_eq_nil (timeline : Timeline) (calls : Nat) {accesses : List Access}
    (noWalk : ∀ path, .walk path ∉ accesses) : timeline.listings calls accesses = [] := by
  rw [listings, List.filterMap_eq_nil_iff]
  rintro ⟨time, access⟩ timed
  cases access with
  | walk path => exact absurd (Access.mem_of_mem_timed timed) (noWalk path)
  | skip _ | expand _ | fetch _ | read _ | scan _ _ => rfl

/-- What was listed are the files that there were at the time of some call. -/
theorem exists_walk_of_mem_listings {calls : Nat} {accesses : List Access}
    {listing : Path × List FileEntry} (mem : listing ∈ timeline.listings calls accesses) :
    ∃ time, calls ≤ time ∧ time < calls + accesses.countP Access.isCall ∧
      (timeline.files time).walk listing.1 = .ok listing.2 := by
  rcases List.mem_filterMap.mp mem with ⟨⟨time, access⟩, timed, listed⟩
  cases access with
  | walk path =>
      rw [listing?] at listed
      split at listed
      · next entries walked =>
          cases listed
          rcases Access.bounds_of_mem_timed timed rfl with ⟨started, made⟩
          exact ⟨time, started, made, walked⟩
      · cases listed
  | skip _ | expand _ | fetch _ | read _ | scan _ _ => cases listed

end Timeline

/-! ## Setting up -/

/-- From the earlier to the later state the files at some paths were listed, so many in total, and
all of them are cached. -/
structure Timeline.Warms (timeline : Timeline) (paths : List Path) (total : Nat)
    (earlier later : LoadState) (made : List Access) : Prop where
  accesses : later.accesses = earlier.accesses ++ made
  walked : (timeline.listings earlier.calls made).map Prod.fst = paths
  counted : ((timeline.listings earlier.calls made).map (·.2.length)).sum = total
  cached : ∀ entry, timeline.Lists earlier.calls made entry →
    later.cache.contains entry.key = true
  grows : earlier.cache.size ≤ later.cache.size
  size : later.cache.size ≤ earlier.cache.size + total

theorem LoadState.calls_of_accesses {earlier later : LoadState} {made : List Access}
    (accesses : later.accesses = earlier.accesses ++ made) :
    later.calls = earlier.calls + made.countP Access.isCall := by
  rw [calls, accesses, List.countP_append, calls]

namespace Timeline

variable {timeline : Timeline} {earlier middle later : LoadState}

/-- What was cached stays cached. -/
theorem Books.contains (books : timeline.Books earlier later) {key : Key}
    (cached : earlier.cache.contains key = true) : later.cache.contains key = true := by
  rcases books with ⟨made, added, booked⟩
  rw [Cache.contains, Option.isSome_iff_exists] at cached ⊢
  rcases cached with ⟨content, found⟩
  exact ⟨content, booked.find?_of_earlier found⟩

theorem Books.size_le (books : timeline.Books earlier later) :
    earlier.cache.size ≤ later.cache.size := by
  rcases books with ⟨made, added, booked⟩
  rw [Cache.size, Cache.size, booked.entries, List.length_append]
  exact Nat.le_add_left _ _

namespace Warms

variable {paths paths' : List Path} {total total' : Nat} {made made' : List Access}

theorem of_same (accesses : later.accesses = earlier.accesses)
    (cache : later.cache = earlier.cache) : timeline.Warms [] 0 earlier later [] where
  accesses := by rw [accesses, List.append_nil]
  walked := rfl
  counted := rfl
  cached := by simp [Lists, listings, Access.timed]
  grows := by rw [cache]
  size := by rw [cache, Nat.add_zero]

theorem trans (first : timeline.Warms paths total earlier middle made)
    (second : timeline.Warms paths' total' middle later made')
    (books : timeline.Books middle later) :
    timeline.Warms (paths ++ paths') (total + total') earlier later (made ++ made') := by
  have listings_eq : timeline.listings earlier.calls (made ++ made') =
      timeline.listings earlier.calls made ++ timeline.listings middle.calls made' := by
    rw [listings_append, LoadState.calls_of_accesses first.accesses]
  refine ⟨?_, ?_, ?_, ?_, ?_, ?_⟩
  · rw [second.accesses, first.accesses, List.append_assoc]
  · rw [listings_eq, List.map_append, first.walked, second.walked]
  · rw [listings_eq, List.map_append, List.sum_append, first.counted, second.counted]
  · rintro entry ⟨listing, listed, entry_mem⟩
    rw [listings_eq, List.mem_append] at listed
    rcases listed with listed | listed
    · exact books.contains (first.cached entry ⟨listing, listed, entry_mem⟩)
    · exact second.cached entry ⟨listing, listed, entry_mem⟩
  · exact Nat.le_trans first.grows second.grows
  · have := first.size
    have := second.size
    omega

end Warms

end Timeline

theorem Timeline.result_walk (timeline : Timeline) (purpose : Detail) (path : Path)
    (state : LoadState) :
    (timeline.now fun source => LoadM.walk source purpose path).result state =
      (timeline.files state.calls).walk path :=
  LoadM.result_walk _ purpose path state

theorem Timeline.after_walk (timeline : Timeline) (purpose : Detail) (path : Path)
    (state : LoadState) :
    (timeline.now fun source => LoadM.walk source purpose path).after state =
      state.walked (timeline.files state.calls) purpose path :=
  LoadM.after_walk _ purpose path state

namespace Loader

variable {timeline : Timeline} {loader : Loader} {state : LoadState}

/-- A file version that was fetched with success is cached, and at most its content was added. -/
theorem cached_after_fetch {source : FileSource} {entry : FileEntry} {content : Text}
    (succeeds : (loader.fetch source entry).result state = .ok content) :
    ((loader.fetch source entry).after state).cache.contains entry.key = true ∧
      ((loader.fetch source entry).after state).cache.size ≤ state.cache.size + 1 := by
  rcases loader.fetch_cases source entry state with
    ⟨content, found, ran⟩ | ⟨failure, -, -, ran⟩ | ⟨bytes, -, -, ran⟩
  · rw [after, ran]
    refine ⟨?_, Nat.le_succ _⟩
    rw [Cache.contains_iff]
    exact ne_of_eq_of_ne found (Option.some_ne_none _)
  · rw [result, ran] at succeeds
    cases succeeds
  · rw [after, ran]
    refine ⟨?_, Cache.size_insert_le _ _ _⟩
    rw [Cache.contains_iff, Cache.find?_insert_self]
    exact Option.some_ne_none _

/-- Fetches file versions one after the other. -/
def fetchEach (loader : Loader) (timeline : Timeline) (entries : List FileEntry) : LoadM PUnit :=
  entries.forM fun entry => discard (timeline.now fun source => loader.fetch source entry)

theorem preloadOver_eq (loader : Loader) (timeline : Timeline) (viewPath : Text) :
    loader.preloadOver timeline viewPath = (do
      let path := loader.root.resolve viewPath
      let entries ← timeline.now fun source => LoadM.walk source (.preloading path) path
      loader.fetchEach timeline entries
      return entries.length) :=
  rfl

theorem fetchEach_cons (loader : Loader) (timeline : Timeline) (entry : FileEntry)
    (entries : List FileEntry) :
    loader.fetchEach timeline (entry :: entries) = (do
      let _ ← timeline.now fun source => loader.fetch source entry
      loader.fetchEach timeline entries) := by
  have discard_eq : discard (timeline.now fun source => loader.fetch source entry) =
      (timeline.now fun source => loader.fetch source entry) >>= fun _ => pure PUnit.unit := rfl
  rw [fetchEach, List.forM_eq_forM, List.forM_cons, discard_eq, bind_assoc]
  rfl

theorem books_fetchEach (loader : Loader) (timeline : Timeline) (entries : List FileEntry) :
    Keeps timeline.Books (loader.fetchEach timeline entries) :=
  conforms_forM (timeline.steps_books loader).toComposes
    (fun entry => conforms_discard (timeline.steps_books loader).toComposes
      (timeline.books_fetch loader entry)) entries

/-- The induction is on the file versions. -/
theorem cached_after_fetchEach {entries : List FileEntry}
    (succeeds : (loader.fetchEach timeline entries).result state = .ok ()) :
    (∃ made, ((loader.fetchEach timeline entries).after state).accesses = state.accesses ++ made ∧
      ∀ path, .walk path ∉ made) ∧
    (∀ entry ∈ entries,
      ((loader.fetchEach timeline entries).after state).cache.contains entry.key = true) ∧
    ((loader.fetchEach timeline entries).after state).cache.size ≤
      state.cache.size + entries.length := by
  induction entries generalizing state with
  | nil => exact ⟨⟨[], (List.append_nil _).symm, by simp⟩, by simp, Nat.le_refl _⟩
  | cons entry entries ih =>
      rw [fetchEach_cons] at succeeds ⊢
      rcases result_bind_eq_ok succeeds with ⟨content, fetched, succeeds'⟩
      rw [after_bind_of_ok fetched]
      rcases cached_after_fetch fetched with ⟨here, size⟩
      rcases loader.accesses_after_fetch (timeline.files state.calls) entry state with
        ⟨first, accesses, first_eq⟩
      rcases ih succeeds' with ⟨⟨rest, accesses', noWalk⟩, cached, size'⟩
      refine ⟨⟨first ++ rest, ?_, ?_⟩, ?_, ?_⟩
      · rw [accesses', ← List.append_assoc]
        exact congrArg (· ++ rest) accesses
      · intro path
        rcases first_eq with rfl | rfl <;> simp [noWalk path]
      · intro other other_mem
        rcases List.mem_cons.mp other_mem with rfl | other_mem
        · exact Timeline.Books.contains (loader.books_fetchEach timeline entries _) here
        · exact cached other other_mem
      · rw [List.length_cons]
        have grown : ((timeline.now fun source => loader.fetch source entry).after
            state).cache.size ≤ state.cache.size + 1 := size
        omega

theorem warms_preloadOver {viewPath : Text} {count : Nat}
    (succeeds : (loader.preloadOver timeline viewPath).result state = .ok count) :
    ∃ made, timeline.Warms [loader.root.resolve viewPath] count state
      ((loader.preloadOver timeline viewPath).after state) made := by
  rw [preloadOver_eq] at succeeds ⊢
  rcases result_bind_eq_ok succeeds with ⟨entries, walked, succeeds'⟩
  rcases result_bind_eq_ok succeeds' with ⟨_, fetched, counted⟩
  cases counted
  rw [after_bind_of_ok walked, after_bind_of_ok fetched, after_pure]
  rw [timeline.result_walk] at walked
  rw [timeline.after_walk] at fetched ⊢
  rcases cached_after_fetchEach fetched with ⟨⟨made, accesses, noWalk⟩, cached, size⟩
  have listings_eq : timeline.listings state.calls
      (.walk (loader.root.resolve viewPath) :: made) =
        [(loader.root.resolve viewPath, entries)] := by
    rw [Timeline.listings_cons_walk walked, timeline.listings_eq_nil _ noWalk]
  refine ⟨.walk (loader.root.resolve viewPath) :: made, ?_, ?_, ?_, ?_, ?_, size⟩
  · rw [accesses, LoadState.walked_accesses, List.append_assoc, List.singleton_append]
  · rw [listings_eq]
    rfl
  · rw [listings_eq]
    rfl
  · rintro entry ⟨listing, listed, entry_mem⟩
    rw [listings_eq, List.mem_singleton] at listed
    cases listed
    exact cached entry entry_mem
  · have books := loader.books_fetchEach timeline entries (state.walked
      (timeline.files state.calls) (.preloading (loader.root.resolve viewPath))
      (loader.root.resolve viewPath))
    exact books.size_le

/-- Caches the files at view paths one after the other, and goes on counting them. -/
def preloadEach (loader : Loader) (timeline : Timeline) (count : Nat) (viewPaths : List Text) :
    LoadM Nat :=
  viewPaths.foldlM (fun total viewPath => do
    return total + (← loader.preloadOver timeline viewPath)) count

theorem books_preloadEach (loader : Loader) (timeline : Timeline) (count : Nat)
    (viewPaths : List Text) :
    Keeps timeline.Books (loader.preloadEach timeline count viewPaths) := by
  have steps := timeline.steps_books loader
  apply keeps_foldlM
  intro total viewPath _
  exact keeps_bind (steps.conforms_preloadOver viewPath) fun _ => keeps_pure _

/-- The induction is on the view paths. -/
theorem warms_preloadEach {viewPaths : List Text} {count total : Nat}
    (succeeds : (loader.preloadEach timeline count viewPaths).result state = .ok total) :
    ∃ made added, total = count + added ∧
      timeline.Warms (viewPaths.map loader.root.resolve) added state
        ((loader.preloadEach timeline count viewPaths).after state) made := by
  induction viewPaths generalizing count state with
  | nil =>
      cases succeeds
      exact ⟨[], 0, rfl, Timeline.Warms.of_same rfl rfl⟩
  | cons viewPath viewPaths ih =>
      rw [preloadEach, List.foldlM_cons] at succeeds ⊢
      rcases result_bind_eq_ok succeeds with ⟨middle, stepped, succeeds'⟩
      rw [after_bind_of_ok stepped, after_bind_pure]
      rcases result_bind_eq_ok stepped with ⟨here, preloaded, middle_eq⟩
      cases middle_eq
      rw [after_bind_pure] at succeeds'
      rcases warms_preloadOver preloaded with ⟨made, first⟩
      rcases ih succeeds' with ⟨made', added, rfl, second⟩
      exact ⟨made ++ made', here + added, Nat.add_assoc _ _ _,
        first.trans second (loader.books_preloadEach timeline _ viewPaths _)⟩

end Loader

/-- Setting up lists the files at the preload roots, and caches all that it has listed. -/
theorem Engine.warms_setupOver {engine : Engine} {timeline : Timeline} {state : LoadState}
    {total : Nat} (succeeds : (engine.setupOver timeline).result state = .ok total) :
    ∃ made, timeline.Warms (engine.config.preloads.map engine.loader.root.resolve) total state
      ((engine.setupOver timeline).after state) made := by
  rw [setupOver] at succeeds ⊢
  split at succeeds
  · next none =>
      cases succeeds
      rw [if_pos none, none]
      exact ⟨[], Timeline.Warms.of_same rfl rfl⟩
  · next some =>
      rw [if_neg some]
      rcases result_bind_eq_ok succeeds with ⟨_, told, succeeds'⟩
      rcases result_bind_eq_ok succeeds' with ⟨count, preloaded, reported⟩
      rw [after_bind_of_ok told, after_bind_of_ok preloaded]
      cases reported
      rcases Loader.warms_preloadEach preloaded with ⟨made, added, total_eq, warms⟩
      rw [Nat.zero_add] at total_eq
      subst total_eq
      exact ⟨made, warms.accesses, warms.walked, warms.counted, warms.cached, warms.grows,
        warms.size⟩

/-! ## Loading later -/

/-- Whatever was fetched was expanded, and is one of the given versions or was listed. -/
def Timeline.Follows (timeline : Timeline) (given : List FileEntry) (earlier later : LoadState) :
    Prop :=
  ∃ made, later.accesses = earlier.accesses ++ made ∧
    ∀ entry, .fetch entry ∈ made →
      .expand entry ∈ made ∧ (entry ∈ given ∨ timeline.Lists earlier.calls made entry)

theorem Timeline.lists_append_iff {timeline : Timeline} {calls : Nat} {front back : List Access}
    {entry : FileEntry} :
    timeline.Lists calls (front ++ back) entry ↔ timeline.Lists calls front entry ∨
      timeline.Lists (calls + front.countP Access.isCall) back entry := by
  simp only [Lists, listings_append, List.mem_append, or_and_right, exists_or]

instance (timeline : Timeline) (given : List FileEntry) :
    IsPreorder LoadState (timeline.Follows given) where
  refl _ := ⟨[], (List.append_nil _).symm, by simp⟩
  trans := by
    rintro earlier middle later ⟨made, accesses, follows⟩ ⟨made', accesses', follows'⟩
    refine ⟨made ++ made', by rw [accesses', accesses, List.append_assoc], ?_⟩
    intro entry fetched
    rw [List.mem_append, Timeline.lists_append_iff, ← LoadState.calls_of_accesses accesses]
    rcases List.mem_append.mp fetched with fetched | fetched
    · rcases follows entry fetched with ⟨expanded, origin⟩
      exact ⟨Or.inl expanded, origin.imp_right Or.inl⟩
    · rcases follows' entry fetched with ⟨expanded, origin⟩
      exact ⟨Or.inr expanded, origin.imp_right Or.inr⟩

namespace Timeline.Follows

variable {timeline : Timeline} {given : List FileEntry} {earlier middle later state : LoadState}

theorem of_none (follows : timeline.Follows [] earlier later) :
    timeline.Follows given earlier later := by
  rcases follows with ⟨made, accesses, follows⟩
  refine ⟨made, accesses, ?_⟩
  intro entry fetched
  rcases follows entry fetched with ⟨expanded, isGiven | listed⟩
  · cases isGiven
  · exact ⟨expanded, Or.inr listed⟩

theorem of_did {access : Access} (noFetch : access.fetched? = none) (state : LoadState) :
    timeline.Follows given state (state.did access) := by
  refine ⟨[access], rfl, ?_⟩
  intro entry fetched
  rw [← List.mem_singleton.mp fetched] at noFetch
  cases noFetch

theorem of_same (accesses : later.accesses = earlier.accesses) :
    timeline.Follows given earlier later :=
  ⟨[], by rw [accesses, List.append_nil], by simp⟩

/-- The versions that were listed need not be given. -/
theorem after_walk {path : Path} {entries : List FileEntry}
    (walked : (timeline.files state.calls).walk path = .ok entries)
    {purpose : Detail}
    (follows : timeline.Follows entries (state.walked (timeline.files state.calls) purpose path)
      later) :
    timeline.Follows [] state later := by
  rcases follows with ⟨made, accesses, follows⟩
  refine ⟨.walk path :: made, ?_, ?_⟩
  · rw [accesses, LoadState.walked_accesses, List.append_assoc, List.singleton_append]
  · intro entry fetched
    rcases List.mem_cons.mp fetched with same | fetched
    · cases same
    have listings_eq := listings_cons_walk walked made
    rcases follows entry fetched with ⟨expanded, isGiven | ⟨listing, listed, entry_mem⟩⟩
    · exact ⟨List.mem_cons_of_mem _ expanded,
        Or.inr ⟨(path, entries), by rw [listings_eq]; exact List.mem_cons_self, isGiven⟩⟩
    · refine ⟨List.mem_cons_of_mem _ expanded, Or.inr ⟨listing, ?_, entry_mem⟩⟩
      rw [LoadState.calls_walked] at listed
      rw [listings_eq]
      exact List.mem_cons_of_mem _ listed

end Timeline.Follows

namespace Loader

variable {timeline : Timeline} {loader : Loader} {context : Context} {given : List FileEntry}
  {load : Text → LoadM Text}

theorem follows_begin_fetch (source : FileSource) {entry : FileEntry} (isGiven : entry ∈ given)
    (state : LoadState) :
    timeline.Follows given state ((loader.fetch source entry).after (state.begin entry)) := by
  rcases loader.accesses_after_fetch source entry (state.begin entry) with
    ⟨made, accesses, made_eq⟩
  refine ⟨.expand entry :: made, ?_, ?_⟩
  · rw [accesses, LoadState.begin, List.append_assoc, List.singleton_append]
  · intro other fetched
    have same : other = entry := by
      rcases made_eq with rfl | rfl <;> simpa using fetched
    subst same
    exact ⟨List.mem_cons_self, Or.inl isGiven⟩

theorem follows_expandEntry (nested : ∀ path, Keeps (timeline.Follows []) (load path))
    {entry : FileEntry} (isGiven : entry ∈ given) :
    Keeps (timeline.Follows given)
      (timeline.now fun source => loader.expandEntry source context load entry) := by
  intro state
  change timeline.Follows given state
    ((loader.expandEntry (timeline.files state.calls) context load entry).after state)
  by_cases seen : entry.key ∈ state.seen.keys
  · rw [after, expandEntry_of_seen seen]
    exact trans_of (timeline.Follows given) (Timeline.Follows.of_did rfl state)
      (Timeline.Follows.of_same rfl)
  · rw [after, expandEntry_of_new seen]
    change timeline.Follows given state
      ((loader.expandNew (timeline.files state.calls) context load entry).after
        (state.begin entry))
    apply related_after_bind (follows_begin_fetch _ isGiven state)
    intro content
    have scans : Keeps (timeline.Follows given) (record (.scan entry content)) :=
      fun state => Timeline.Follows.of_did rfl state
    have reports : ∀ notices, Keeps (timeline.Follows given) (report notices) :=
      fun _ _ => Timeline.Follows.of_same rfl
    apply keeps_bind scans
    intro _
    apply keeps_bind (reports _)
    intro _
    exact keeps_splice (fun path state => (nested path state).of_none) _ _

/-- The induction is on the nesting. -/
theorem follows_expandOver (loader : Loader) (timeline : Timeline) (context : Context)
    (nesting : Nat) (viewPath : Text) :
    Keeps (timeline.Follows []) (loader.expandOver timeline context nesting viewPath) := by
  induction nesting generalizing viewPath with
  | zero => exact keeps_pure _
  | succ nesting ih =>
      intro state
      rw [expandOver, loadOver]
      cases walked : (timeline.files state.calls).walk (loader.root.resolve viewPath) with
      | error failure =>
          rw [after_bind_of_error ((timeline.result_walk _ _ state).trans walked),
            timeline.after_walk]
          exact trans_of (timeline.Follows []) (Timeline.Follows.of_did rfl state)
            (Timeline.Follows.of_same rfl)
      | ok entries =>
          rw [after_bind_of_ok ((timeline.result_walk _ _ state).trans walked),
            timeline.after_walk]
          apply Timeline.Follows.after_walk walked
          apply keeps_foldlM
          intro output entry entry_mem
          exact keeps_bind (follows_expandEntry ih entry_mem) fun _ => keeps_pure _

end Loader

theorem Timeline.fetch_mem_of_mem_readings {timeline : Timeline} {calls : Nat}
    {accesses : List Access} {reading : Reading}
    (mem : reading ∈ timeline.readings calls accesses) : .fetch reading.entry ∈ accesses := by
  induction calls, accesses using readings.induct with
  | case1 calls entry path accesses ih =>
      rw [readings] at mem
      rcases List.mem_cons.mp mem with rfl | mem
      · exact List.mem_cons_self
      · exact List.mem_cons_of_mem _ (List.mem_cons_of_mem _ (ih mem))
  | case2 calls access accesses unpaired ih =>
      rw [readings.eq_2 _ _ _ _ unpaired] at mem
      exact List.mem_cons_of_mem _ (ih mem)
  | case3 calls =>
      rw [readings] at mem
      cases mem

/-- Only what is not cached is read. -/
theorem Proceeds.absent_of_mem_readings {timeline : Timeline} {minify : Bool}
    {earlier later : LoadState} {outcome : Option ViewFailure} {made : List Access}
    {added : List (Key × Text)}
    (proceeds : Proceeds timeline minify earlier outcome later made added) {reading : Reading}
    (mem : reading ∈ timeline.readings earlier.calls made) :
    earlier.cache.find? reading.entry.key = none := by
  cases answer : reading.key? with
  | none =>
      have absent := (proceeds.unread reading mem answer).2
      exact ((proceeds.booked.find?_eq_none_iff _).mp absent).1
  | some key =>
      have key_eq : key = reading.entry.key := by
        rw [Reading.key?] at answer
        split at answer <;> cases answer
        rfl
      have read : key ∈ timeline.keysRead earlier.calls made :=
        List.mem_filterMap.mpr ⟨reading, mem, answer⟩
      rw [← proceeds.booked.keys] at read
      exact key_eq ▸ proceeds.booked.fresh key read

/-- At no time between two states is another version of the file listed. -/
def Timeline.HasNoOther (timeline : Timeline) (entry : FileEntry) (earlier later : LoadState) :
    Prop :=
  ∀ time, earlier.calls ≤ time → time < later.calls →
    ∀ path entries, (timeline.files time).walk path = .ok entries →
      ∀ other ∈ entries, other.path = entry.path → other = entry

/-- A task makes no reader call for a file that is warm, as long as there is no other version of the
file while the task is done. If it expands only what is warm, then a failure is that of the listing
with which it stops. -/
structure Timeline.SparesReader (timeline : Timeline) (warm : FileEntry → Prop) (task : Task)
    (state : LoadState) (made : List Access) : Prop where
  accesses : ((task.run timeline).after state).accesses = state.accesses ++ made
  unread : ∀ entry, warm entry →
    timeline.HasNoOther entry state ((task.run timeline).after state) → .read entry.path ∉ made
  stops : (∀ entry, .expand entry ∈ made → warm entry) →
    ∀ failure, (task.run timeline).result state = .error failure →
      ∃ front path, made = front ++ [.walk path] ∧
        (timeline.files (state.calls + front.countP Access.isCall)).walk path = .error failure

section SparesReader

variable {timeline : Timeline} {task : Task} {warm : FileEntry → Prop} {state : LoadState}

/-- Where a task reads a file, it has listed and expanded a version of the file that was not
cached, and where it fails, it stops with the call that fails. -/
theorem Task.reads_of_follows (follows : Keeps (timeline.Follows []) (task.run timeline))
    (state : LoadState) :
    ∃ made, ((task.run timeline).after state).accesses = state.accesses ++ made ∧
      (∀ path, .read path ∈ made → ∃ entry, entry.path = path ∧ .expand entry ∈ made ∧
        timeline.Lists state.calls made entry ∧ state.cache.find? entry.key = none) ∧
      ∀ failure, (task.run timeline).result state = .error failure →
        ∃ front call, made = front ++ [call] ∧
          timeline.failure? (state.calls + front.countP Access.isCall) call = some failure := by
  rcases conforms_run (timeline.steps_runs task.loader) state with ⟨made, added, proceeds⟩
  rcases follows state with ⟨made', accesses, followed⟩
  have same : made' = made := by
    rw [proceeds.booked.accesses] at accesses
    exact (List.append_cancel_left accesses).symm
  subst same
  refine ⟨made', accesses, ?_, ?_⟩
  · intro path read
    have path_mem : path ∈ made'.filterMap Access.readPath? :=
      List.mem_filterMap.mpr ⟨.read path, read, rfl⟩
    rw [← proceeds.booked.paths] at path_mem
    rcases List.mem_map.mp path_mem with ⟨reading, reading_mem, path_eq⟩
    rcases followed _ (Timeline.fetch_mem_of_mem_readings reading_mem) with
      ⟨expanded, isGiven | listed⟩
    · cases isGiven
    · exact ⟨reading.entry, path_eq, expanded, listed,
        proceeds.absent_of_mem_readings reading_mem⟩
  · intro failure fails
    exact proceeds.last failure (failure?_of_error fails)

theorem Timeline.exists_sparesReader (follows : Keeps (timeline.Follows []) (task.run timeline))
    (cached : ∀ entry, warm entry → state.cache.contains entry.key = true) :
    ∃ made, timeline.SparesReader warm task state made := by
  rcases Task.reads_of_follows follows state with ⟨made, accesses, reads, fails⟩
  refine ⟨made, accesses, ?_, ?_⟩
  · intro entry isWarm noOther read
    rcases reads entry.path read with ⟨other, path_eq, -, ⟨listing, listed, other_mem⟩, absent⟩
    rcases exists_walk_of_mem_listings listed with ⟨time, started, ended, walked⟩
    rw [← LoadState.calls_of_accesses accesses] at ended
    have same := noOther time started ended listing.1 listing.2 walked other other_mem path_eq
    rw [same] at absent
    exact Cache.contains_iff.mp (cached entry isWarm) absent
  · intro onlyWarm failure failed
    rcases fails failure failed with ⟨front, call, rfl, call_fails⟩
    cases call with
    | walk path =>
        refine ⟨front, path, rfl, ?_⟩
        rw [failure?] at call_fails
        split at call_fails <;> cases call_fails
        assumption
    | read path =>
        rcases reads path (by simp) with ⟨entry, -, expanded, -, absent⟩
        exact absurd absent (Cache.contains_iff.mp (cached entry (onlyWarm entry expanded)))
    | skip _ | expand _ | fetch _ | scan _ _ => cases call_fails

theorem Task.follows_load (timeline : Timeline) (loader : Loader) (seen : SeenKeys)
    (context : Context) (nesting : Nat) (viewPath : Text) :
    Keeps (timeline.Follows []) ((load loader seen context nesting viewPath).run timeline) := by
  have sees : Keeps (timeline.Follows [])
      (modify fun state => { state with seen } : LoadM Unit) :=
    fun _ => Timeline.Follows.of_same rfl
  apply keeps_bind sees
  intro _
  exact keeps_bind (loader.follows_expandOver timeline context nesting viewPath) fun _ =>
    keeps_pure _

end SparesReader

/-- Between two states an engine was set up: the files listed at the preload roots were counted, all
of them are cached, and no more contents were added than were counted. Whatever is done later by
engines that share the cache, and however the files change, no load by any of them calls the reader
for one of these files until there is a new version of it, and a load that expands none but them
fails only where a listing does. -/
def Engine.IsWarmed (engine : Engine) (timeline : Timeline) (total : Nat)
    (earlier later : LoadState) : Prop :=
  ∃ made, timeline.Warms (engine.config.preloads.map engine.loader.root.resolve) total earlier
      later made ∧
    ∀ (timeline' : Timeline) tasks loader seen context nesting viewPath,
      ∃ made', timeline'.SparesReader (timeline.Lists earlier.calls made)
        (.load loader seen context nesting viewPath)
        (Task.afterAll timeline' tasks later) made'

theorem Engine.isWarmed_of_warms {engine : Engine} {timeline : Timeline} {total : Nat}
    {earlier later : LoadState} {made : List Access}
    (warms : timeline.Warms (engine.config.preloads.map engine.loader.root.resolve) total earlier
      later made) : engine.IsWarmed timeline total earlier later := by
  refine ⟨made, warms, ?_⟩
  intro timeline' tasks loader seen context nesting viewPath
  apply Timeline.exists_sparesReader
  · exact Task.follows_load timeline' loader seen context nesting viewPath
  · intro entry listed
    have books := Task.books_afterAll timeline' tasks later
    exact books.contains (warms.cached entry listed)

/-- An engine that sets up with success is warm, whether the files stay as they are meanwhile or
change from call to call. -/
theorem Engine.setup_warms (engine : Engine) (state : LoadState) (total : Nat) :
    (∀ source, (engine.setup source).result state = .ok total →
      engine.IsWarmed (.still source) total state ((engine.setup source).after state)) ∧
    (∀ timeline, (engine.setupOver timeline).result state = .ok total →
      engine.IsWarmed timeline total state ((engine.setupOver timeline).after state)) := by
  have warmed : ∀ timeline, (engine.setupOver timeline).result state = .ok total →
      engine.IsWarmed timeline total state ((engine.setupOver timeline).after state) := by
    intro timeline succeeds
    rcases warms_setupOver succeeds with ⟨made, warms⟩
    exact isWarmed_of_warms warms
  refine ⟨?_, warmed⟩
  intro source succeeds
  rw [← engine.setupOver_still source] at succeeds ⊢
  exact warmed (.still source) succeeds

namespace Warming

/-- A page in a directory, and a menu that it includes. -/
def store : FlatStore where
  files := [
    { path := .ofString "/pages/home", content := Utf8.encode "(:include menu:)".toList,
      modified := 1 },
    { path := .ofString "/menu", content := Utf8.encode "menu".toList, modified := 2 }]

/-- An engine that preloads the directory of the page, and all files. -/
def engine : Engine where
  config := { preloads := ["/pages/".toList, "".toList] }
  loader := {
    root := ⟨Path.rootDirectory⟩
    minify := true
    contextAnchor := "</head>".toList
    clientVariable := "viewData".toList
    maxSubstitutions := 4096 }

theorem setup_store : (engine.setup store.source).result {} = .ok 3 := by
  cbv

end Warming

/-- The page is listed at two roots, and counted twice. -/
theorem Engine.setup_warms_store :
    (Warming.engine.setup Warming.store.source).result {} = .ok 3 ∧
      Warming.engine.IsWarmed (.still Warming.store.source) 3 {}
        ((Warming.engine.setup Warming.store.source).after {}) ∧
      (Warming.engine.setupOver (.still Warming.store.source)).result {} = .ok 3 ∧
      Warming.engine.IsWarmed (.still Warming.store.source) 3 {}
        ((Warming.engine.setupOver (.still Warming.store.source)).after {}) :=
  ⟨Warming.setup_store, (setup_warms _ {} 3).1 _ Warming.setup_store, Warming.setup_store,
    (setup_warms _ {} 3).2 _ Warming.setup_store⟩

end Pageweave
