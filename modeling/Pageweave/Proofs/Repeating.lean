import Mathlib
import Pageweave.Files.Flat
import Pageweave.Proofs.Nesting

/-!
# Loading a view again

When a load succeeds, all files listed at its path have been seen: each was expanded, or was passed
over because a nested inclusion had taken it before. As long as no key is forgotten, the same view
comes to nothing from then on, whatever the data, and its files are listed but not read.
-/

namespace Pageweave

open LoadM

namespace Loader

variable {loader : Loader} {source : FileSource} {context : Context} {viewPath text : Text}
  {state : LoadState}

/-- A load that succeeds has listed the files at its path and leaves the keys of them all seen. -/
theorem exists_entries_of_load
    (succeeds : (loader.load source context viewPath).result state = .ok text) :
    ∃ entries, source.walk (loader.root.resolve viewPath) = .ok entries ∧
      ∀ entry ∈ entries,
        entry.key ∈ ((loader.load source context viewPath).after state).seen.keys := by
  rw [load_unfold] at succeeds ⊢
  rcases result_bind_eq_ok succeeds with ⟨entries, walked, expanded⟩
  rw [after_bind_of_ok walked]
  rw [result_walk] at walked
  have nested : ∀ path, Keeps LoadState.Precedes (loader.load source context path) :=
    fun path => loader.precedes_expandWithin source context _ path
  exact ⟨entries, walked, key_mem_after_expandEntries nested expanded⟩

/-- What a load tells that lists files at a view path and passes over each of them. -/
def skimmed (loader : Loader) (source : FileSource) (viewPath : Text) (entries : List FileEntry) :
    List Detail :=
  .loading (loader.root.resolve viewPath) ::
    (source.listed (loader.root.resolve viewPath) ++ passings entries)

/-- A load of files whose keys were all seen lists them and passes them over. -/
theorem load_of_seen {entries : List FileEntry}
    (walked : source.walk (loader.root.resolve viewPath) = .ok entries)
    (seen : ∀ entry ∈ entries, entry.key ∈ state.seen.keys) :
    (loader.load source context viewPath).run.run state =
      (.ok [], { state with
        accesses := state.accesses ++
          .walk (loader.root.resolve viewPath) :: entries.map .skip
        log := state.log ++ (loader.skimmed source viewPath entries).map .detail }) := by
  have seen' : ∀ entry ∈ entries,
      entry.key ∈ (loader.afterListing source viewPath state).seen.keys := seen
  rw [load_of_walked walked, expandEntries_of_seen seen']
  simp [afterListing, LoadState.walked, LoadState.did, LoadState.logged, skimmed]

/-- After a load has succeeded, everything listed at its path is seen. If what is seen then is still
seen later, a load of the same view with any data succeeds with the empty text and only lists the
files and passes them over: the cache and the seen keys stay as they are, no notice is given and
nothing is read. -/
theorem load_again (succeeds : (loader.load source context viewPath).result state = .ok text) :
    ∃ entries, source.walk (loader.root.resolve viewPath) = .ok entries ∧
      (∀ entry ∈ entries,
        entry.key ∈ ((loader.load source context viewPath).after state).seen.keys) ∧
      ∀ (context' : Context) (later : LoadState),
        ((loader.load source context viewPath).after state).seen.keys ⊆ later.seen.keys →
        (loader.load source context' viewPath).run.run later =
          (.ok [], { later with
            accesses := later.accesses ++
              .walk (loader.root.resolve viewPath) :: entries.map .skip
            log := later.log ++ (loader.skimmed source viewPath entries).map .detail }) := by
  rcases exists_entries_of_load succeeds with ⟨entries, walked, seen⟩
  refine ⟨entries, walked, seen, ?_⟩
  intro context' later kept
  apply load_of_seen walked
  intro entry entry_mem
  exact kept (seen entry entry_mem)

end Loader

namespace Repeating

/-- The file that includes the directory that it lies in. -/
def first : FileEntry := ⟨Path.ofString "/v/a", 1⟩

/-- The other file of the directory. -/
def second : FileEntry := ⟨Path.ofString "/v/b", 2⟩

/-- The text of the first file. -/
def firstText : Text :=
  "(:include v:)A".toList

/-- The directory with the two files. -/
def store : FlatStore where
  files := [
    { path := first.path, content := Utf8.encode firstText, modified := first.modified },
    { path := second.path, content := Utf8.encode "B".toList, modified := second.modified }]

/-- A loader of the directory. -/
def loader : Loader where
  root := ⟨Path.rootDirectory⟩
  minify := true
  contextAnchor := "</head>".toList
  clientVariable := "viewData".toList
  maxSubstitutions := 4096

/-- Other data for the directory. -/
def context : Context :=
  ⟨[("n".toList, .string "7".toList)]⟩

theorem walk_directory :
    store.source.walk (loader.root.resolve "v".toList) = .ok [first, second] := by
  cbv

/-- The directory comes to what its files are expanded to. -/
theorem result_load_eq (state : LoadState) :
    (loader.load store.source {} "v".toList).result state =
      (loader.expandEntries store.source {} (loader.load store.source {}) [first, second]).result
        (loader.afterListing store.source "v".toList state) :=
  congrArg Prod.fst (Loader.load_of_walked walk_directory state)

theorem skimmed_directory : loader.skimmed store.source "v".toList [first, second] =
    [.loading (Path.ofString "/v"), .passedOver first.key, .passedOver second.key] := by
  cbv

theorem embed_first : loader.embed {} firstText = firstText :=
  Snapshot.embed_of_none (by cbv) (by decide)

theorem embed_second : loader.embed {} "B".toList = "B".toList :=
  Snapshot.embed_of_none (by cbv) (by decide)

theorem scan_first : Scan.run {} loader.maxSubstitutions firstText =
    ⟨[⟨[], "(:include v:)".toList, .inclusion "v".toList⟩], "A".toList⟩ := by
  cbv

theorem scan_second : Scan.run {} loader.maxSubstitutions "B".toList = ⟨[], "B".toList⟩ := by
  cbv

section Load

variable {load : Text → LoadM Text} {state : LoadState}

theorem expand_second (new : second.key ∉ state.seen.keys)
    (absent : state.cache.find? second.key = none) :
    (loader.expandEntry store.source {} load second).result state = .ok "B".toList := by
  rw [result, Loader.expandEntry_of_read "B".toList new absent (by cbv) (by cbv), embed_second,
    scan_second]
  rfl

/-- Within the first file, the directory comes to what the second file is. -/
theorem load_within_first (seen : first.key ∈ state.seen.keys) (new : second.key ∉ state.seen.keys)
    (absent : state.cache.find? second.key = none) :
    (loader.load store.source {} "v".toList).result state = .ok "B".toList := by
  have passed : (loader.expandEntry store.source {} (loader.load store.source {}) first).run.run
      (loader.afterListing store.source "v".toList state) = (.ok [], _) :=
    Loader.expandEntry_of_seen seen
  have new' : second.key ∉
      ((loader.afterListing store.source "v".toList state).passed first).seen.keys := new
  rw [result_load_eq, Loader.expandEntries, List.foldlM_cons, bind_assoc,
    result_bind_of_ok (congrArg Prod.fst passed), pure_bind, after, passed, List.foldlM_cons,
    bind_assoc, result_bind_of_ok (expand_second new' absent)]
  rfl

end Load

theorem expand_first :
    ∃ left, (loader.expandEntry store.source {} (loader.load store.source {}) first).run.run
        (loader.afterListing store.source "v".toList {}) = (.ok "BA".toList, left) ∧
      second.key ∈ left.seen.keys := by
  rw [Loader.expandEntry_of_read firstText List.not_mem_nil rfl (by cbv) (by cbv), embed_first,
    scan_first]
  change ∃ left, (Loader.splice _ _ [("(:include v:)".toList, "v".toList)]).run.run _ = _ ∧ _
  rw [Loader.splice_cons]
  generalize state_eq : LoadState.mk _ _ _ _ = state
  have included : (loader.load store.source {} "v".toList).result state = .ok "B".toList := by
    subst state_eq
    exact load_within_first (by decide) (by decide) (by decide)
  rcases Loader.exists_entries_of_load included with ⟨entries, walked, seen⟩
  rw [walk_directory, Except.ok.injEq] at walked
  subst walked
  refine ⟨_, ?_, seen second (by simp)⟩
  have replaced : Text.replaceAll "(:include v:)".toList "B".toList "(:include v:)A".toList =
      "BA".toList := by
    cbv
  rw [run_run_bind, included]
  exact congrArg (Prod.mk · _) (congrArg Except.ok replaced)

/-- The second file is taken by the first one, and passed over in the directory itself. -/
theorem result_load : (loader.load store.source {} "v".toList).result {} = .ok "BA".toList := by
  rcases expand_first with ⟨left, expanded, seen⟩
  rw [result_load_eq, Loader.expandEntries, List.foldlM_cons, bind_assoc,
    result_bind_of_ok (congrArg Prod.fst expanded), pure_bind, after, expanded, List.foldlM_cons,
    bind_assoc, result_bind_of_ok (congrArg Prod.fst (Loader.expandEntry_of_seen seen))]
  rfl

end Repeating

/-- The directory comes to the texts of its two files, and then to nothing, also with other data and
with nothing cached. -/
theorem Loader.load_again_directory :
    (Repeating.loader.load Repeating.store.source {} "v".toList).result {} = .ok "BA".toList ∧
      ∃ left, (Repeating.loader.load Repeating.store.source {} "v".toList).after {} = left ∧
        Repeating.first.key ∈ left.seen.keys ∧ Repeating.second.key ∈ left.seen.keys ∧
        (Repeating.loader.load Repeating.store.source Repeating.context "v".toList).run.run
            { left with cache := {} } =
          (.ok [], { left with
            cache := {}
            accesses := left.accesses ++ [.walk (Repeating.loader.root.resolve "v".toList),
              .skip Repeating.first, .skip Repeating.second]
            log := left.log ++ [.detail (.loading (Path.ofString "/v")),
              .detail (.passedOver Repeating.first.key),
              .detail (.passedOver Repeating.second.key)] }) := by
  rcases load_again Repeating.result_load with ⟨entries, walked, seen, again⟩
  rw [Repeating.walk_directory, Except.ok.injEq] at walked
  subst walked
  rw [Repeating.skimmed_directory] at again
  refine ⟨Repeating.result_load, _, rfl, seen _ (by simp), seen _ (by simp), ?_⟩
  exact again Repeating.context _ (List.Subset.refl _)

end Pageweave
