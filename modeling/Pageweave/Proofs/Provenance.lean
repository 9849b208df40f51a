import Mathlib.Data.Set.Function
import Pageweave.Proofs.Loading

/-!
# Where contents come from

A cache holds contents under the keys of file versions and knows nothing of the versions
themselves. As long as the versions that come up have keys of their own, it can still be told whose
content is taken: if all that was put into the cache is genuine for its version, by whatever notion
of this, so is all that is found there, and only the version that was expanded counts as expanded.

`IsFaithful` collects what is kept along every run; `faithful_event` is about one operation of an
engine and `honest_history` about any number of them on one cache.
-/

namespace Pageweave

open LoadM

variable {versions : Set FileEntry} {genuine : FileEntry → Text → Prop}

/-- What is found under the keys of certain versions is genuine for these versions. -/
def Cache.IsHonest (versions : Set FileEntry) (genuine : FileEntry → Text → Prop)
    (cache : Cache) : Prop :=
  ∀ entry ∈ versions, ∀ content, cache.find? entry.key = some content → genuine entry content

/-- A source offers only certain versions, and what a loader makes of a file is genuine. -/
structure Loader.Supplied (loader : Loader) (source : FileSource) (versions : Set FileEntry)
    (genuine : FileEntry → Text → Prop) : Prop where
  listed : ∀ entry ∈ source.versions, entry ∈ versions
  processed : ∀ entry ∈ source.versions, ∀ bytes, source.read entry.path = .ok bytes →
    genuine entry (Content.process loader.minify entry.path bytes).1

/-- The cache is honest, every content that was taken to be scanned is genuine for the version it
was taken for, and only versions were passed over that had been expanded before. -/
structure LoadState.IsFaithful (versions : Set FileEntry) (genuine : FileEntry → Text → Prop)
    (state : LoadState) : Prop where
  cached : state.cache.IsHonest versions genuine
  scanned : ∀ entry content, .scan entry content ∈ state.accesses → genuine entry content
  expanded : ∀ key ∈ state.seen.keys,
    ∃ entry ∈ versions, entry.key = key ∧ .expand entry ∈ state.accesses
  skipped : ∀ before entry, before ++ [.skip entry] <+: state.accesses → .expand entry ∈ before

theorem Cache.isHonest_empty : Cache.IsHonest versions genuine {} := by
  intro entry _ content found
  cases found

theorem Cache.IsHonest.insert {cache : Cache} {entry : FileEntry} {content : Text}
    (distinct : Set.InjOn FileEntry.key versions) (honest : cache.IsHonest versions genuine)
    (entry_mem : entry ∈ versions) (isGenuine : genuine entry content) :
    (cache.insert entry.key content).IsHonest versions genuine := by
  intro other other_mem content' found
  by_cases same : other.key = entry.key
  · rcases distinct other_mem entry_mem same with rfl
    rw [find?_insert_self, Option.some.injEq] at found
    exact found ▸ isGenuine
  · rw [find?_insert_of_ne same] at found
    exact honest other other_mem content' found

namespace LoadState

/-- A load that begins with an honest cache and has seen nothing is faithful so far. -/
theorem isFaithful_of_honest {cache : Cache} (honest : cache.IsHonest versions genuine) :
    IsFaithful versions genuine { cache } where
  cached := honest
  scanned := by simp
  expanded := by simp
  skipped := by simp

theorem IsFaithful.logged {state : LoadState} (faithful : state.IsFaithful versions genuine)
    (entries : List LogEntry) : (state.logged entries).IsFaithful versions genuine :=
  ⟨faithful.cached, faithful.scanned, faithful.expanded, faithful.skipped⟩

theorem IsFaithful.did {state : LoadState} {access : Access}
    (faithful : state.IsFaithful versions genuine)
    (scans : ∀ entry content, access = .scan entry content → genuine entry content)
    (skips : ∀ entry, access = .skip entry → .expand entry ∈ state.accesses) :
    (state.did access).IsFaithful versions genuine where
  cached := faithful.cached
  scanned := by
    intro entry content scan_mem
    rw [did_accesses, List.mem_append, List.mem_singleton] at scan_mem
    rcases scan_mem with scan_mem | scan_eq
    · exact faithful.scanned entry content scan_mem
    · exact scans entry content scan_eq.symm
  expanded := by
    intro key key_mem
    rcases faithful.expanded key key_mem with ⟨entry, entry_mem, key_eq, expand_mem⟩
    exact ⟨entry, entry_mem, key_eq, List.mem_append_left _ expand_mem⟩
  skipped := by
    intro before entry earlier
    rw [did_accesses, List.prefix_concat_iff] at earlier
    rcases earlier with here | earlier
    · rcases List.append_inj' here rfl with ⟨rfl, access_eq⟩
      exact skips entry (List.singleton_inj.mp access_eq).symm
    · exact faithful.skipped before entry earlier

theorem IsFaithful.begin {state : LoadState} {entry : FileEntry}
    (faithful : state.IsFaithful versions genuine) (entry_mem : entry ∈ versions) :
    (state.begin entry).IsFaithful versions genuine := by
  have done : (state.did (.expand entry)).IsFaithful versions genuine :=
    faithful.did (by simp) (by simp)
  refine ⟨done.cached, done.scanned, ?_, done.skipped⟩
  intro key key_mem
  rcases List.mem_append.mp key_mem with key_mem | key_mem
  · exact done.expanded key key_mem
  · exact ⟨entry, entry_mem, (List.mem_singleton.mp key_mem).symm, by simp [LoadState.begin]⟩

/-- Walks, questions to the cache and reads keep a state faithful if the cache stays honest. -/
theorem IsFaithful.of_silent {state later : LoadState} {made : List Access}
    (faithful : state.IsFaithful versions genuine)
    (honest : later.cache.IsHonest versions genuine) (seen : later.seen = state.seen)
    (accesses : later.accesses = state.accesses ++ made)
    (silent : ∀ entry content, .scan entry content ∉ made ∧ .skip entry ∉ made) :
    later.IsFaithful versions genuine where
  cached := honest
  scanned := by
    intro entry content scan_mem
    rw [accesses, List.mem_append] at scan_mem
    rcases scan_mem with scan_mem | scan_mem
    · exact faithful.scanned entry content scan_mem
    · exact absurd scan_mem (silent entry content).1
  expanded := by
    intro key key_mem
    rw [seen] at key_mem
    rcases faithful.expanded key key_mem with ⟨entry, entry_mem, key_eq, expand_mem⟩
    refine ⟨entry, entry_mem, key_eq, ?_⟩
    rw [accesses]
    exact List.mem_append_left _ expand_mem
  skipped := by
    intro before entry earlier
    rw [accesses] at earlier
    rcases List.prefix_or_prefix_of_prefix earlier (List.prefix_append _ _) with inside | beyond
    · exact faithful.skipped before entry inside
    · rw [List.prefix_concat_iff] at beyond
      rcases beyond with accesses_eq | ⟨front, rfl⟩
      · exact faithful.skipped before entry (accesses_eq ▸ List.prefix_rfl)
      · rw [List.append_assoc, List.prefix_append_right_inj] at earlier
        have skip_mem : .skip entry ∈ made := earlier.subset (by simp)
        exact absurd skip_mem (silent entry []).2

end LoadState

namespace Loader

variable {loader : Loader} {source : FileSource} {context : Context} {load : Text → LoadM Text}

/-- A computation that is started in a faithful state leaves a faithful state. -/
abbrev StaysFaithful {α : Type} (versions : Set FileEntry) (genuine : FileEntry → Text → Prop)
    (x : LoadM α) : Prop :=
  Keeps (fun before left => before.IsFaithful versions genuine →
    left.IsFaithful versions genuine) x

theorem staysFaithful_walk (source : FileSource) (purpose : Detail) (path : Path) :
    StaysFaithful versions genuine (LoadM.walk source purpose path) := by
  intro state faithful
  rw [after_walk]
  exact (faithful.did (by simp) (by simp)).logged _

theorem staysFaithful_report (notices : List Notice) :
    StaysFaithful versions genuine (report notices) :=
  fun _ faithful => faithful.logged _

theorem staysFaithful_tell (details : List Detail) :
    StaysFaithful versions genuine (tell details) :=
  fun _ faithful => faithful.logged _

/-- Fetching keeps a cache honest, if what is made of the file is genuine. -/
theorem honest_fetch_of_processed (distinct : Set.InjOn FileEntry.key versions)
    {entry : FileEntry} (entry_mem : entry ∈ versions)
    (processed : ∀ bytes, source.read entry.path = .ok bytes →
      genuine entry (Content.process loader.minify entry.path bytes).1)
    {state : LoadState} (honest : state.cache.IsHonest versions genuine) :
    ((loader.fetch source entry).after state).cache.IsHonest versions genuine := by
  rw [after]
  rcases loader.fetch_cases source entry state with
    ⟨content, -, ran⟩ | ⟨failure, -, -, ran⟩ | ⟨bytes, -, answer, ran⟩
  · rw [ran]
    exact honest
  · rw [ran]
    exact honest
  · rw [ran]
    have honest' : Cache.IsHonest versions genuine
        { state.cache with misses := state.cache.misses + 1 } := honest
    exact honest'.insert distinct entry_mem (processed bytes answer)

/-- What is fetched with an honest cache is genuine, if what is made of the file is. -/
theorem genuine_of_fetch_of_processed {entry : FileEntry} (entry_mem : entry ∈ versions)
    (processed : ∀ bytes, source.read entry.path = .ok bytes →
      genuine entry (Content.process loader.minify entry.path bytes).1)
    {state : LoadState} (honest : state.cache.IsHonest versions genuine) {content : Text}
    (fetched : (loader.fetch source entry).result state = .ok content) :
    genuine entry content := by
  rw [result] at fetched
  rcases loader.fetch_cases source entry state with
    ⟨content', found, ran⟩ | ⟨failure, -, -, ran⟩ | ⟨bytes, -, answer, ran⟩
  · rw [ran] at fetched
    cases fetched
    exact honest entry entry_mem content found
  · rw [ran] at fetched
    cases fetched
  · rw [ran] at fetched
    cases fetched
    exact processed bytes answer

theorem honest_fetch (distinct : Set.InjOn FileEntry.key versions)
    (supplied : loader.Supplied source versions genuine) {entry : FileEntry}
    (entry_mem : entry ∈ source.versions) {state : LoadState}
    (honest : state.cache.IsHonest versions genuine) :
    ((loader.fetch source entry).after state).cache.IsHonest versions genuine :=
  honest_fetch_of_processed distinct (supplied.listed entry entry_mem)
    (supplied.processed entry entry_mem) honest

theorem genuine_of_fetch (supplied : loader.Supplied source versions genuine) {entry : FileEntry}
    (entry_mem : entry ∈ source.versions) {state : LoadState}
    (honest : state.cache.IsHonest versions genuine) {content : Text}
    (fetched : (loader.fetch source entry).result state = .ok content) :
    genuine entry content :=
  genuine_of_fetch_of_processed (supplied.listed entry entry_mem)
    (supplied.processed entry entry_mem) honest fetched

theorem staysFaithful_fetch (distinct : Set.InjOn FileEntry.key versions)
    (supplied : loader.Supplied source versions genuine) {entry : FileEntry}
    (entry_mem : entry ∈ source.versions) :
    StaysFaithful versions genuine (loader.fetch source entry) := by
  intro state faithful
  have honest := honest_fetch distinct supplied entry_mem faithful.cached
  rcases loader.accesses_after_fetch source entry state with ⟨made, accesses, made_eq⟩
  apply faithful.of_silent honest (loader.seen_after_fetch source entry state) accesses
  intro other content
  rcases made_eq with rfl | rfl <;> simp

theorem staysFaithful_expandNew (distinct : Set.InjOn FileEntry.key versions)
    (supplied : loader.Supplied source versions genuine)
    (nested : ∀ path, StaysFaithful versions genuine (load path)) {entry : FileEntry}
    (entry_mem : entry ∈ source.versions) :
    StaysFaithful versions genuine (loader.expandNew source context load entry) := by
  intro state faithful
  have fetched := staysFaithful_fetch distinct supplied entry_mem state faithful
  rw [expandNew]
  cases outcome : (loader.fetch source entry).result state with
  | error failure =>
      rw [after_bind_of_error outcome]
      exact fetched
  | ok content =>
      rw [after_bind_of_ok outcome, after_bind_of_ok (result_record _ _), after_record]
      apply keeps_bind (staysFaithful_report _) (fun _ => keeps_splice nested _ _)
      apply fetched.did
      · rintro _ _ ⟨⟩
        exact genuine_of_fetch supplied entry_mem faithful.cached outcome
      · simp

theorem staysFaithful_expandEntry (distinct : Set.InjOn FileEntry.key versions)
    (supplied : loader.Supplied source versions genuine)
    (nested : ∀ path, StaysFaithful versions genuine (load path)) {entry : FileEntry}
    (entry_mem : entry ∈ source.versions) :
    StaysFaithful versions genuine (loader.expandEntry source context load entry) := by
  intro state faithful
  have entry_mem' := supplied.listed entry entry_mem
  by_cases seen : entry.key ∈ state.seen.keys
  · rw [after, expandEntry_of_seen seen]
    apply LoadState.IsFaithful.logged
    apply faithful.did
    · simp
    · rintro _ ⟨⟩
      rcases faithful.expanded entry.key seen with ⟨other, other_mem, key_eq, expand_mem⟩
      rcases distinct other_mem entry_mem' key_eq with rfl
      exact expand_mem
  · rw [after, expandEntry_of_new seen]
    exact staysFaithful_expandNew distinct supplied nested entry_mem _ (faithful.begin entry_mem')

theorem staysFaithful_expandWithin (distinct : Set.InjOn FileEntry.key versions)
    (supplied : loader.Supplied source versions genuine) (context : Context) (nesting : Nat)
    (viewPath : Text) :
    StaysFaithful versions genuine (loader.expandWithin source context nesting viewPath) :=
  keeps_expandWithin (staysFaithful_walk source)
    (fun _ nested _ entry_mem => staysFaithful_expandEntry distinct supplied nested entry_mem)
    nesting viewPath

/-- A load that begins with an empty cache scans nothing but what it makes of files. -/
theorem scanned_of_load
    (distinct : Set.InjOn FileEntry.key {entry | entry ∈ source.versions}) {viewPath : Text}
    {entry : FileEntry} {content : Text}
    (scanned : .scan entry content ∈ ((loader.load source context viewPath).after {}).accesses) :
    entry ∈ source.versions ∧ ∃ bytes, source.read entry.path = .ok bytes ∧
      content = (Content.process loader.minify entry.path bytes).1 := by
  have supplied : loader.Supplied source {entry | entry ∈ source.versions} fun entry content =>
      entry ∈ source.versions ∧ ∃ bytes, source.read entry.path = .ok bytes ∧
        content = (Content.process loader.minify entry.path bytes).1 :=
    ⟨fun _ entry_mem => entry_mem, fun _ entry_mem bytes answer => ⟨entry_mem, bytes, answer, rfl⟩⟩
  have faithful := staysFaithful_expandWithin distinct supplied context
    (source.versions.length + 1) viewPath {}
    (LoadState.isFaithful_of_honest Cache.isHonest_empty)
  exact faithful.scanned entry content scanned

theorem staysFaithful_preload (distinct : Set.InjOn FileEntry.key versions)
    (supplied : loader.Supplied source versions genuine) (viewPath : Text) :
    StaysFaithful versions genuine (loader.preload source viewPath) := by
  apply keeps_walk_bind (staysFaithful_walk source)
  intro entries walked
  apply keeps_bind
  · apply keeps_forM
    intro entry entry_mem
    apply keeps_discard
    exact staysFaithful_fetch distinct supplied (source.mem_versions walked entry_mem)
  · exact fun _ => keeps_pure _

end Loader

end Pageweave
