import Pageweave.Proofs.Timeline

/-!
# The books of a cache

A cache counts how often it was asked for a key with and without success, and holds a content for
each key. These numbers can be checked against the log of what was done with files: a miss is a
call of the reader, a content is a call that it answered with bytes, and a question is a fetch.

`Booked` relates two states between which something was done, with the log of it and the contents
that it added to the cache. It is kept from one step to the next, whatever fails and however files
change, so it holds of all that engines do with a cache in common.
-/

namespace Pageweave

open LoadM

theorem Access.readPath?_of_not_call {access : Access} (noCall : access.isCall = false) :
    access.readPath? = none := by
  cases access with
  | read path => cases noCall
  | walk _ | skip _ | expand _ | fetch _ | scan _ _ => rfl

/-- A call of the reader for a file version, and its answer. -/
structure Reading where
  /-- The file version whose content was asked for. -/
  entry : FileEntry
  /-- What the reader answered. -/
  answer : Except FileFailure Bytes

namespace Reading

/-- The key of the version, if it was read. -/
def key? (reading : Reading) : Option Key :=
  match reading.answer with
  | .ok _ => some reading.entry.key
  | .error _ => none

/-- What is to be cached for the version, if it was read. -/
def kept? (minify : Bool) (reading : Reading) : Option (Key × Text) :=
  match reading.answer with
  | .ok bytes => some (reading.entry.key, (Content.process minify reading.entry.path bytes).1)
  | .error _ => none

end Reading

namespace Timeline

/-- The calls of the reader in a log that begins when so many calls have been made: each of them
follows the fetch that it is made for. -/
def readings (timeline : Timeline) : (calls : Nat) → List Access → List Reading
  | calls, .fetch entry :: .read path :: accesses =>
      ⟨entry, (timeline.files calls).read path⟩ :: timeline.readings (calls + 1) accesses
  | calls, access :: accesses =>
      timeline.readings (if access.isCall then calls + 1 else calls) accesses
  | _, [] => []

/-- The keys that were read with success. -/
def keysRead (timeline : Timeline) (calls : Nat) (accesses : List Access) : List Key :=
  (timeline.readings calls accesses).filterMap Reading.key?

/-- A log may be cut wherever no fetch is cut off from its call of the reader. -/
theorem readings_append (timeline : Timeline) (calls : Nat) (front : List Access)
    {back : List Access} (opens : ∀ path, back.head? ≠ some (.read path)) :
    timeline.readings calls (front ++ back) = timeline.readings calls front ++
      timeline.readings (calls + front.countP Access.isCall) back := by
  induction calls, front using readings.induct with
  | case1 calls entry path accesses ih =>
      have counted : calls + 1 + accesses.countP Access.isCall =
          calls + (Access.fetch entry :: .read path :: accesses).countP Access.isCall := by
        rw [← Access.countP_isCall_cons, ← Access.countP_isCall_cons]
        rfl
      rw [List.cons_append, List.cons_append, readings, readings, ih, counted, List.cons_append]
  | case2 calls access accesses unpaired ih =>
      have unpaired' : ∀ entry path rest, access = .fetch entry →
          accesses ++ back = .read path :: rest → False := by
        intro entry path rest access_eq rest_eq
        cases accesses with
        | nil =>
            rw [List.nil_append] at rest_eq
            exact opens path (by rw [rest_eq]; rfl)
        | cons next accesses =>
            rw [List.cons_append, List.cons.injEq] at rest_eq
            exact unpaired entry path accesses access_eq (by rw [rest_eq.1])
      rw [List.cons_append, readings.eq_2 _ _ _ _ unpaired', readings.eq_2 _ _ _ _ unpaired, ih,
        Access.countP_isCall_cons]
  | case3 calls => simp [readings]

@[simp]
theorem readings_singleton (timeline : Timeline) (calls : Nat) (access : Access) :
    timeline.readings calls [access] = [] := by
  rw [readings.eq_2 _ _ _ _ (by simp), readings]

@[simp]
theorem readings_pair (timeline : Timeline) (calls : Nat) (entry : FileEntry) (path : Path) :
    timeline.readings calls [.fetch entry, .read path] =
      [⟨entry, (timeline.files calls).read path⟩] := by
  rw [readings, readings]

theorem keysRead_append (timeline : Timeline) (calls : Nat) (front : List Access)
    {back : List Access} (opens : ∀ path, back.head? ≠ some (.read path)) :
    timeline.keysRead calls (front ++ back) = timeline.keysRead calls front ++
      timeline.keysRead (calls + front.countP Access.isCall) back := by
  rw [keysRead, readings_append timeline calls front opens, List.filterMap_append, keysRead,
    keysRead]

end Timeline

theorem Cache.find?_eq_none_iff {cache : Cache} {key : Key} :
    cache.find? key = none ↔ key ∉ cache.entries.map Prod.fst := by
  simp only [find?, Option.map_eq_none_iff, List.find?_eq_none, decide_eq_true_eq, List.mem_map]
  exact ⟨fun other ⟨item, item_mem, same⟩ => other item item_mem same,
    fun absent item item_mem same => absent ⟨item, item_mem, same⟩⟩

/-- From the earlier to the later state something was done and added to the cache, and the counters
have gone on in step with it. -/
structure Booked (timeline : Timeline) (earlier later : LoadState) (made : List Access)
    (added : List (Key × Text)) : Prop where
  accesses : later.accesses = earlier.accesses ++ made
  opens : ∀ path, made.head? ≠ some (.read path)
  paths : (timeline.readings earlier.calls made).map (·.entry.path) =
    made.filterMap Access.readPath?
  entries : later.cache.entries = added.reverse ++ earlier.cache.entries
  keys : added.map Prod.fst = timeline.keysRead earlier.calls made
  fresh : ∀ key ∈ added.map Prod.fst, earlier.cache.find? key = none
  nodup : (added.map Prod.fst).Nodup
  misses : later.cache.misses = earlier.cache.misses + (made.filterMap Access.readPath?).length
  questions : later.cache.hits + later.cache.misses =
    earlier.cache.hits + earlier.cache.misses + (made.filterMap Access.fetched?).length
  asks : ∀ front entry back, made = front ++ .fetch entry :: back →
    earlier.cache.find? entry.key = none → entry.key ∉ timeline.keysRead earlier.calls front →
    ∃ rest, back = .read entry.path :: rest

namespace Booked

variable {timeline : Timeline} {earlier middle later state : LoadState}
  {made made' : List Access} {added added' : List (Key × Text)}

theorem calls_eq (booked : Booked timeline earlier later made added) :
    later.calls = earlier.calls + made.countP Access.isCall := by
  rw [LoadState.calls, booked.accesses, List.countP_append, LoadState.calls]

/-- A key is found later just if it was found earlier or its content was added. -/
theorem find?_eq_none_iff (booked : Booked timeline earlier later made added) (key : Key) :
    later.cache.find? key = none ↔
      earlier.cache.find? key = none ∧ key ∉ timeline.keysRead earlier.calls made := by
  rw [Cache.find?_eq_none_iff, booked.entries, List.map_append, List.map_reverse, booked.keys,
    List.mem_append, List.mem_reverse, not_or, Cache.find?_eq_none_iff]
  exact And.comm

/-- What was found earlier is found later. -/
theorem find?_of_earlier (booked : Booked timeline earlier later made added) {key : Key}
    {content : Text} (found : earlier.cache.find? key = some content) :
    later.cache.find? key = some content := by
  have other : ∀ item ∈ added.reverse, item.1 ≠ key := by
    intro item item_mem same
    have absent := booked.fresh item.1 (List.mem_map_of_mem (List.mem_reverse.mp item_mem))
    rw [same, found] at absent
    cases absent
  have skipped : added.reverse.find? (·.1 = key) = none := by
    simpa using other
  rw [Cache.find?, booked.entries, List.find?_append, skipped, Option.none_or]
  exact found

/-- Nothing was done with files. -/
theorem of_same (accesses : later.accesses = earlier.accesses)
    (cache : later.cache = earlier.cache) : Booked timeline earlier later [] [] where
  accesses := by rw [accesses, List.append_nil]
  opens := by simp
  paths := rfl
  entries := by rw [cache]; rfl
  keys := rfl
  fresh := by simp
  nodup := List.nodup_nil
  misses := by rw [cache]; rfl
  questions := by rw [cache]; rfl
  asks := by simp

/-- Something was done other than fetching a content and reading a file. -/
theorem of_did (timeline : Timeline) (state : LoadState) {access : Access}
    (noFetch : access.fetched? = none) (noRead : access.readPath? = none) :
    Booked timeline state (state.did access) [access] [] where
  accesses := rfl
  opens := by
    intro path head
    rw [List.head?_cons, Option.some.injEq] at head
    rw [head] at noRead
    cases noRead
  paths := by simp [noRead]
  entries := rfl
  keys := by simp [Timeline.keysRead]
  fresh := by simp
  nodup := List.nodup_nil
  misses := by simp [noRead]
  questions := by simp [noFetch]
  asks := by
    intro front entry back made_eq
    rcases List.append_eq_singleton_iff.mp made_eq.symm with ⟨-, fetch_eq⟩ | ⟨-, fetch_eq⟩
    · rw [List.cons.injEq] at fetch_eq
      rw [← fetch_eq.1] at noFetch
      cases noFetch
    · cases fetch_eq

theorem of_walked (timeline : Timeline) (state : LoadState) (purpose : Detail) (path : Path) :
    Booked timeline state (state.walked (timeline.files state.calls) purpose path) [.walk path]
      [] :=
  have did : Booked timeline state (state.did (.walk path)) [.walk path] [] :=
    of_did timeline state rfl rfl
  { did with }

theorem trans (first : Booked timeline earlier middle made added)
    (second : Booked timeline middle later made' added') :
    Booked timeline earlier later (made ++ made') (added ++ added') where
  accesses := by rw [second.accesses, first.accesses, List.append_assoc]
  opens := by
    intro path
    cases made with
    | nil => exact second.opens path
    | cons access made => exact first.opens path
  paths := by
    rw [timeline.readings_append _ _ second.opens, List.map_append, first.paths,
      ← first.calls_eq, second.paths, List.filterMap_append]
  entries := by
    rw [second.entries, first.entries, List.reverse_append, List.append_assoc]
  keys := by
    rw [timeline.keysRead_append _ _ second.opens, List.map_append, first.keys,
      ← first.calls_eq, second.keys]
  fresh := by
    intro key key_mem
    rw [List.map_append, List.mem_append] at key_mem
    rcases key_mem with key_mem | key_mem
    · exact first.fresh key key_mem
    · exact ((first.find?_eq_none_iff key).mp (second.fresh key key_mem)).1
  nodup := by
    rw [List.map_append, List.nodup_append']
    refine ⟨first.nodup, second.nodup, ?_⟩
    intro key key_mem key_mem'
    rw [first.keys] at key_mem
    exact ((first.find?_eq_none_iff key).mp (second.fresh key key_mem')).2 key_mem
  misses := by
    rw [second.misses, first.misses, List.filterMap_append, List.length_append, Nat.add_assoc]
  questions := by
    rw [second.questions, first.questions, List.filterMap_append, List.length_append,
      Nat.add_assoc]
  asks := by
    intro front entry back made_eq absent unread
    -- The fetch belongs to the second part or to the first one.
    rcases List.append_eq_append_iff.mp made_eq with
      ⟨front', rfl, made'_eq⟩ | ⟨back', made_eq', back_eq⟩
    · have opens' : ∀ path, front'.head? ≠ some (.read path) := by
        intro path
        cases front' with
        | nil => simp
        | cons access front' =>
            have head := second.opens path
            rwa [made'_eq] at head
      rw [timeline.keysRead_append _ _ opens', List.mem_append, not_or, ← first.calls_eq] at unread
      exact second.asks front' entry back made'_eq
        ((first.find?_eq_none_iff _).mpr ⟨absent, unread.1⟩) unread.2
    · cases back' with
      | nil =>
          rw [List.append_nil] at made_eq'
          rw [← made_eq'] at unread
          exact second.asks [] entry back back_eq.symm
            ((first.find?_eq_none_iff _).mpr ⟨absent, unread⟩) (by simp [Timeline.keysRead,
              Timeline.readings])
      | cons access back' =>
          rw [List.cons_append, List.cons.injEq] at back_eq
          rcases back_eq with ⟨rfl, rfl⟩
          rcases first.asks front entry back' made_eq' absent unread with ⟨rest, rfl⟩
          exact ⟨rest ++ made', rfl⟩

/-! ## Fetching -/

section Fetch

variable {entry : FileEntry} {loader : Loader}

/-- A content that is found is not read. -/
theorem of_cached (timeline : Timeline) {source : FileSource} {content : Text}
    (found : state.cache.find? entry.key = some content) :
    Booked timeline state ((loader.fetch source entry).after state) [.fetch entry] [] := by
  rw [after, Loader.fetch_of_cached found]
  exact {
    accesses := rfl
    opens := by simp
    paths := by simp [Access.readPath?]
    entries := rfl
    keys := by simp [Timeline.keysRead]
    fresh := by simp
    nodup := List.nodup_nil
    misses := by simp [Access.readPath?]
    questions := by simp [Access.fetched?, Nat.add_right_comm]
    asks := by
      intro front other back made_eq absent
      rcases List.append_eq_singleton_iff.mp made_eq.symm with ⟨-, fetch_eq⟩ | ⟨-, fetch_eq⟩
      · rw [List.cons.injEq, Access.fetch.injEq] at fetch_eq
        rw [fetch_eq.1, found] at absent
        cases absent
      · cases fetch_eq }

theorem eq_of_fetch_read {front back : List Access} {entry other : FileEntry} {path : Path}
    (made_eq : [.fetch entry, .read path] = front ++ Access.fetch other :: back) :
    other = entry ∧ back = [.read path] := by
  cases front with
  | nil => simpa [eq_comm] using made_eq
  | cons access front => cases front <;> simp at made_eq

/-- A content that is not found is read, and a file that cannot be read leaves no content. -/
theorem of_unreadable {failure : FileFailure} (absent : state.cache.find? entry.key = none)
    (unreadable : (timeline.files state.calls).read entry.path = .error failure) :
    Booked timeline state ((loader.fetch (timeline.files state.calls) entry).after state)
      [.fetch entry, .read entry.path] [] := by
  rw [after, Loader.fetch_of_unreadable absent unreadable]
  exact {
    accesses := rfl
    opens := by simp
    paths := by rw [Timeline.readings_pair]; rfl
    entries := rfl
    keys := by simp [Timeline.keysRead, Reading.key?, unreadable]
    fresh := by simp
    nodup := List.nodup_nil
    misses := rfl
    questions := by simp [Access.fetched?, Nat.add_assoc]
    asks := by
      intro front other back made_eq _ _
      rcases eq_of_fetch_read made_eq with ⟨rfl, rfl⟩
      exact ⟨[], rfl⟩ }

/-- A content that is not found is read and kept. -/
theorem of_read {bytes : Bytes} (absent : state.cache.find? entry.key = none)
    (answer : (timeline.files state.calls).read entry.path = .ok bytes) :
    Booked timeline state ((loader.fetch (timeline.files state.calls) entry).after state)
      [.fetch entry, .read entry.path]
      [(entry.key, (Content.process loader.minify entry.path bytes).1)] := by
  rw [after, Loader.fetch_of_read absent answer]
  have others : ∀ item ∈ state.cache.entries, item.1 ≠ entry.key := by
    intro item item_mem same
    exact Cache.find?_eq_none_iff.mp absent (same ▸ List.mem_map_of_mem item_mem)
  exact {
    accesses := rfl
    opens := by simp
    paths := by rw [Timeline.readings_pair]; rfl
    entries := by simpa [Cache.insert] using others
    keys := by simp [Timeline.keysRead, Reading.key?, answer]
    fresh := by simpa using absent
    nodup := by simp
    misses := rfl
    questions := by simp [Access.fetched?, Cache.insert, Nat.add_assoc]
    asks := by
      intro front other back made_eq _ _
      rcases eq_of_fetch_read made_eq with ⟨rfl, rfl⟩
      exact ⟨[], rfl⟩ }

end Fetch

end Booked

/-! ## All that engines do -/

/-- The books are right from the earlier to the later state. -/
def Timeline.Books (timeline : Timeline) (earlier later : LoadState) : Prop :=
  ∃ made added, Booked timeline earlier later made added

instance (timeline : Timeline) : IsPreorder LoadState timeline.Books where
  refl _ := ⟨[], [], Booked.of_same rfl rfl⟩
  trans _ _ _ := fun ⟨_, _, first⟩ ⟨_, _, second⟩ => ⟨_, _, first.trans second⟩

theorem Timeline.books_fetch (timeline : Timeline) (loader : Loader) (entry : FileEntry) :
    Keeps timeline.Books (timeline.now fun source => loader.fetch source entry) := by
  intro state
  change timeline.Books state ((loader.fetch (timeline.files state.calls) entry).after state)
  rcases loader.fetch_cases (timeline.files state.calls) entry state with
    ⟨content, found, -⟩ | ⟨failure, absent, unreadable, -⟩ | ⟨bytes, absent, answer, -⟩
  · exact ⟨_, _, Booked.of_cached timeline found⟩
  · exact ⟨_, _, Booked.of_unreadable absent unreadable⟩
  · exact ⟨_, _, Booked.of_read absent answer⟩

theorem Timeline.steps_books (timeline : Timeline) (loader : Loader) :
    timeline.Steps loader fun earlier _ later => timeline.Books earlier later where
  rests := refl_of timeline.Books
  goesOn := trans_of timeline.Books
  walks := by
    intro purpose path state
    change timeline.Books state
      ((LoadM.walk (timeline.files state.calls) purpose path).after state)
    rw [after_walk]
    exact ⟨_, _, Booked.of_walked timeline state purpose path⟩
  fetches := timeline.books_fetch loader
  does := by
    intro state access noCall noFetch
    exact ⟨_, _, Booked.of_did timeline state noFetch (Access.readPath?_of_not_call noCall)⟩
  notes := fun _ _ _ => ⟨_, _, Booked.of_same rfl rfl⟩

/-- Whatever is done one after another by engines that share a cache, the books are right. -/
theorem Task.books_afterAll (timeline : Timeline) (tasks : List Task) (state : LoadState) :
    timeline.Books state (afterAll timeline tasks state) := by
  apply related_afterAll
  intro task
  exact conforms_run (timeline.steps_books task.loader)

/-- The counters of a cache agree with the log of all that was done with it, and so do its keys. No
key was read twice with success. -/
structure Timeline.Accounts (timeline : Timeline) (state : LoadState) : Prop where
  misses : state.cache.misses = (state.accesses.filterMap Access.readPath?).length
  questions : state.cache.hits + state.cache.misses =
    (state.accesses.filterMap Access.fetched?).length
  paths : (timeline.readings 0 state.accesses).map (·.entry.path) =
    state.accesses.filterMap Access.readPath?
  size : state.cache.size = (timeline.keysRead 0 state.accesses).length
  keys : state.cache.entries.map Prod.fst = (timeline.keysRead 0 state.accesses).reverse
  once : (timeline.keysRead 0 state.accesses).Nodup

/-- Where the books are right from the beginning, with an empty cache, the counters agree with the
log. -/
theorem Timeline.Books.accounts {timeline : Timeline} {state : LoadState}
    (books : timeline.Books {} state) : timeline.Accounts state := by
  rcases books with ⟨made, added, booked⟩
  have accesses : state.accesses = made := booked.accesses
  have entries : state.cache.entries = added.reverse := by
    rw [booked.entries]
    exact List.append_nil _
  have keys : added.map Prod.fst = timeline.keysRead 0 made := booked.keys
  have misses := booked.misses
  have questions := booked.questions
  rw [← accesses] at keys misses questions
  exact {
    misses := by simpa using misses
    questions := by simpa using questions
    paths := by
      rw [accesses]
      exact booked.paths
    size := by rw [Cache.size, entries, ← keys, List.length_reverse, List.length_map]
    keys := by rw [entries, List.map_reverse, keys]
    once := keys ▸ booked.nodup }

/-- After any tasks on one cache that is empty to begin with, however files change meanwhile, the
counters agree with the log; and a content that is found then is found after any further tasks. -/
theorem Task.accounts_afterAll (timeline : Timeline) (tasks further : List Task) :
    timeline.Accounts (afterAll timeline tasks {}) ∧
      ∀ key content, (afterAll timeline tasks {}).cache.find? key = some content →
        (afterAll timeline further (afterAll timeline tasks {})).cache.find? key =
          some content := by
  constructor
  · exact (books_afterAll timeline tasks {}).accounts
  · intro key content found
    rcases books_afterAll timeline further (afterAll timeline tasks {}) with ⟨made, added, booked⟩
    exact booked.find?_of_earlier found

end Pageweave
