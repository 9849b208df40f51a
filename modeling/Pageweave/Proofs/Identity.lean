import Mathlib
import Pageweave.Files.Flat
import Pageweave.Proofs.History

/-!
# Versions that share a key

The key of a file version is its path followed by the digits of its time, with nothing between
them. So a path that goes on with digits can stand for the same path without them at a time that
begins with these digits: the file `a1` at time `1` has the key of the file `a` at time `11`.

`FileEntry.key_eq_iff` states that keys coincide in no other way. Where no two versions clash like
this, every history keeps them apart; and wherever two versions do, some history takes the content
of one for that of the other.
-/

namespace Pageweave

open LoadM

theorem Text.ofNat_injective {m n : Nat} (same : ofNat m = ofNat n) : m = n := by
  rw [ofNat, ofNat] at same
  rw [← Nat.ofDigitChars_ten_toDigits (n := m), same, Nat.ofDigitChars_ten_toDigits]

namespace FileEntry

/-- The path of another version is the path of a version with digits behind it, and the time of the
version begins with these digits and goes on with the other time. -/
def Clashes (entry other : FileEntry) : Prop :=
  ∃ digits, digits ≠ [] ∧ other.path.text = entry.path.text ++ digits ∧
    Text.ofNat entry.modified = digits ++ Text.ofNat other.modified

theorem key_eq_of_clashes {entry other : FileEntry} (clash : entry.Clashes other) :
    entry.key = other.key := by
  rcases clash with ⟨digits, -, path_eq, modified_eq⟩
  rw [key, key, path_eq, modified_eq, List.append_assoc]

theorem ne_of_clashes {entry other : FileEntry} (clash : entry.Clashes other) : entry ≠ other := by
  rintro rfl
  rcases clash with ⟨digits, nonempty, path_eq, -⟩
  exact nonempty (List.self_eq_append_right.mp path_eq)

theorem eq_of_parts {entry other : FileEntry} (path_eq : entry.path.text = other.path.text)
    (modified_eq : entry.modified = other.modified) : entry = other := by
  rcases entry with ⟨⟨text⟩, modified⟩
  rcases other with ⟨⟨text'⟩, modified'⟩
  cases path_eq
  cases modified_eq
  rfl

/-- Two versions have the same key only if they are the same or clash. -/
theorem key_eq_iff (entry other : FileEntry) :
    entry.key = other.key ↔ entry = other ∨ entry.Clashes other ∨ other.Clashes entry := by
  constructor
  · intro same
    rw [key, key, Key.mk.injEq, List.append_eq_append_iff] at same
    rcases same with ⟨digits, path_eq, modified_eq⟩ | ⟨digits, path_eq, modified_eq⟩
    · by_cases empty : digits = []
      · left
        rw [empty, List.append_nil] at path_eq
        rw [empty, List.nil_append] at modified_eq
        exact eq_of_parts path_eq.symm (Text.ofNat_injective modified_eq)
      · exact Or.inr (Or.inl ⟨digits, empty, path_eq, modified_eq⟩)
    · by_cases empty : digits = []
      · left
        rw [empty, List.append_nil] at path_eq
        rw [empty, List.nil_append] at modified_eq
        exact eq_of_parts path_eq (Text.ofNat_injective modified_eq).symm
      · exact Or.inr (Or.inr ⟨digits, empty, path_eq, modified_eq⟩)
  · rintro (rfl | clash | clash)
    · rfl
    · exact key_eq_of_clashes clash
    · exact (key_eq_of_clashes clash).symm

end FileEntry

/-- What an event does with file versions, given the events before it: a content that it scans was
made of the bytes that the version was read with, then or before, and a version that it passes over
was expanded before by the same event. -/
structure KeepsIdentity (before : List Event) (event : Event) : Prop where
  scanned : ∀ entry content, .scan entry content ∈ (event.after (History.cache before)).accesses →
    ∃ past ∈ before ++ [event], entry ∈ past.source.versions ∧
      ∃ bytes, past.source.read entry.path = .ok bytes ∧
        content = (Content.process past.engine.loader.minify entry.path bytes).1
  skipped : ∀ earlier entry,
    earlier ++ [.skip entry] <+: (event.after (History.cache before)).accesses →
    .expand entry ∈ earlier

section Kept

variable {versions : Set FileEntry}

theorem injOn_key_of_no_clash
    (noClash : ∀ entry ∈ versions, ∀ other ∈ versions, ¬entry.Clashes other) :
    Set.InjOn FileEntry.key versions := by
  intro entry entry_mem other other_mem same
  rcases (FileEntry.key_eq_iff entry other).mp same with equal | clash | clash
  · exact equal
  · exact absurd clash (noClash entry entry_mem other other_mem)
  · exact absurd clash (noClash other other_mem entry entry_mem)

/-- Events on versions with keys of their own keep these versions apart. -/
theorem keepsIdentity_of_distinct (distinct : Set.InjOn FileEntry.key versions)
    {before : List Event} {event : Event}
    (offered : ∀ past ∈ before ++ [event], ∀ entry ∈ past.source.versions, entry ∈ versions) :
    KeepsIdentity before event := by
  have supplied : ∀ past ∈ before ++ [event], past.engine.loader.Supplied past.source versions
      fun entry content => ∃ past ∈ before ++ [event], entry ∈ past.source.versions ∧
        ∃ bytes, past.source.read entry.path = .ok bytes ∧
          content = (Content.process past.engine.loader.minify entry.path bytes).1 :=
    fun past past_mem => ⟨offered past past_mem,
      fun _ entry_mem bytes answer => ⟨past, past_mem, entry_mem, bytes, answer, rfl⟩⟩
  have honest := honest_history distinct fun past past_mem =>
    supplied past (List.mem_append_left _ past_mem)
  have faithful := faithful_event distinct (supplied event (by simp)) honest
  exact ⟨faithful.scanned, faithful.skipped⟩

end Kept

/-! ## Clashes show -/

/-- Files of which there is only one version, whatever path is asked for. -/
def FileSource.single (entry : FileEntry) (answer : Except FileFailure Bytes) : FileSource where
  walk _ := .ok [entry]
  read _ := answer
  versions := [entry]
  mem_versions := by
    rintro _ _ other ⟨⟩ other_mem
    exact other_mem

theorem Loader.find?_after_preload (loader : Loader) (entry : FileEntry) (bytes : Bytes)
    (viewPath : Text) :
    ((loader.preload (FileSource.single entry (.ok bytes)) viewPath).after {}).cache.find?
      entry.key = some (Content.process loader.minify entry.path bytes).1 := by
  have walked : (LoadM.walk (FileSource.single entry (.ok bytes))
      (.preloading (loader.root.resolve viewPath)) (loader.root.resolve viewPath)).result {} =
        .ok [entry] := result_walk _ _ _ _
  have absent : (LoadState.walked {} (FileSource.single entry (.ok bytes))
      (.preloading (loader.root.resolve viewPath)) (loader.root.resolve viewPath)).cache.find?
        entry.key = none := rfl
  have answer : (FileSource.single entry (.ok bytes)).read entry.path = .ok bytes := rfl
  rw [preload, after_bind_of_ok walked, after_walk, after_bind_pure, List.forM_eq_forM,
    List.forM_cons, List.forM_nil, after_bind_pure, after_discard, after,
    fetch_of_read absent answer]
  exact Cache.find?_insert_self _ _ _

theorem Loader.scan_mem_of_expandNew {loader : Loader} {source : FileSource} {context : Context}
    {load : Text → LoadM Text} {entry : FileEntry} {state : LoadState} {content : Text}
    (nested : ∀ path, Keeps LoadState.Precedes (load path))
    (found : state.cache.find? entry.key = some content) :
    .scan entry content ∈
      ((loader.expandNew source context load entry).after state).accesses := by
  have fetched : (loader.fetch source entry).result state = .ok content := by
    rw [result, fetch_of_cached found]
  have grows := fun notices text inclusions => keeps_bind (precedes_report notices)
    fun _ => keeps_splice nested text inclusions
  rw [expandNew, after_bind_of_ok fetched, after_bind_of_ok (result_record _ _), after_record]
  apply (grows _ _ _ _).accesses.subset
  simp

/-- A content that is cached under the key of a version is scanned for this version. -/
theorem Event.scan_mem_of_cached (engine : Engine) {entry : FileEntry} {cache : Cache}
    {content : Text} (found : cache.find? entry.key = some content)
    (answer : Except FileFailure Bytes) (context : Context) (viewPath : Text) :
    .scan entry content ∈ ((Event.mk engine (FileSource.single entry answer)
      (.load context viewPath)).after cache).accesses := by
  have walked : (FileSource.single entry answer).walk (engine.loader.root.resolve viewPath) =
      .ok [entry] := rfl
  have new : entry.key ∉ (engine.loader.afterListing (FileSource.single entry answer) viewPath
      { cache }).seen.keys := List.not_mem_nil
  change .scan entry content ∈ ((engine.loader.load (FileSource.single entry answer) context
    viewPath).after { cache }).accesses
  rw [Loader.load, LoadM.after, Loader.expandWithin_of_walked walked,
    Loader.expandEntries_singleton, Loader.expandEntry_of_new new]
  exact Loader.scan_mem_of_expandNew (engine.loader.precedes_expandWithin _ context _) found

/-- Where two versions clash, the content of one can be taken for that of the other: the first is
cached, and then a load comes to the second while it cannot be read. -/
theorem not_keepsIdentity_of_clash {entry other : FileEntry} (clash : entry.Clashes other)
    (engine : Engine) (failure : FileFailure) :
    ¬KeepsIdentity [⟨engine, FileSource.single entry (.ok []), .preload []⟩]
      ⟨engine, FileSource.single other (.error failure), .load {} []⟩ := by
  intro kept
  have cached := engine.loader.find?_after_preload entry [] []
  have found : (History.cache [⟨engine, FileSource.single entry (.ok []), .preload []⟩]).find?
      other.key = some (Content.process engine.loader.minify entry.path []).1 := by
    rw [← FileEntry.key_eq_of_clashes clash, ← cached]
    rfl
  have scan_mem := Event.scan_mem_of_cached engine found (.error failure) {} []
  rcases kept.scanned other _ scan_mem with ⟨past, past_mem, other_mem, bytes, answer, -⟩
  rw [List.singleton_append, List.mem_cons, List.mem_singleton] at past_mem
  rcases past_mem with rfl | rfl
  · exact FileEntry.ne_of_clashes clash (List.mem_singleton.mp other_mem).symm
  · cases answer

/-- Versions have keys of their own just if no two of them clash, and just then every history of an
engine that finds only these versions keeps them apart. -/
theorem versionIdentity_iff (engine : Engine) (versions : Set FileEntry) :
    ((∀ entry ∈ versions, ∀ other ∈ versions, ¬entry.Clashes other) ↔
      Set.InjOn FileEntry.key versions) ∧
    ((∀ entry ∈ versions, ∀ other ∈ versions, ¬entry.Clashes other) ↔
      ∀ before event,
        (∀ past ∈ before ++ [event], past.engine = engine ∧
          ∀ entry ∈ past.source.versions, entry ∈ versions) →
        KeepsIdentity before event) := by
  refine ⟨⟨injOn_key_of_no_clash, ?_⟩, ⟨?_, ?_⟩⟩
  · intro distinct entry entry_mem other other_mem clash
    have same := distinct entry_mem other_mem (FileEntry.key_eq_of_clashes clash)
    exact FileEntry.ne_of_clashes clash same
  · intro noClash before event offered
    exact keepsIdentity_of_distinct (injOn_key_of_no_clash noClash)
      fun past past_mem => (offered past past_mem).2
  · intro kept entry entry_mem other other_mem clash
    apply not_keepsIdentity_of_clash clash engine (FlatStore.unreadable other.path .notFound)
    apply kept
    intro past past_mem
    rw [List.singleton_append, List.mem_cons, List.mem_singleton] at past_mem
    rcases past_mem with rfl | rfl
    · refine ⟨rfl, ?_⟩
      intro offered offered_mem
      rw [List.mem_singleton.mp offered_mem]
      exact entry_mem
    · refine ⟨rfl, ?_⟩
      intro offered offered_mem
      rw [List.mem_singleton.mp offered_mem]
      exact other_mem

/-- Two views with one key. -/
def clashStore : FlatStore where
  files := [
    { path := Path.ofString "/views/a", content := Utf8.encode "A".toList, modified := 11 },
    { path := Path.ofString "/views/a1", content := Utf8.encode "B".toList, modified := 1 }]

/-- A loader of the two views. -/
def clashLoader : Loader where
  root := ⟨Path.ofString "/views"⟩
  minify := true
  contextAnchor := "</head>".toList
  clientVariable := "viewData".toList
  maxSubstitutions := 4096

set_option maxRecDepth 20000 in
/-- The second view is passed over, although only the first one was expanded. -/
theorem clashing_view_lost :
    ((clashLoader.load clashStore.source {} []).after {}).accesses =
      [.walk (Path.ofString "/views"),
        .expand ⟨Path.ofString "/views/a", 11⟩,
        .fetch ⟨Path.ofString "/views/a", 11⟩,
        .read (Path.ofString "/views/a"),
        .scan ⟨Path.ofString "/views/a", 11⟩ "A".toList,
        .skip ⟨Path.ofString "/views/a1", 1⟩] := by
  cbv

end Pageweave
