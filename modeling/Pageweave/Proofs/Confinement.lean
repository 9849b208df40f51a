import Mathlib
import Pageweave.Files.Flat
import Pageweave.Proofs.Course
import Pageweave.Proofs.Provenance

/-!
# Staying below the view root

A view path is resolved below the view root, but a `..` in it may lead out again. `StaysBelow` is
the exact condition on a view path: whatever directories of the root it goes up from, it has to come
down to again (`isWithin_resolve_iff`). A load lists the files at the paths that it is asked for, by
its caller or by an inclusion, and reads only what is listed there. So it keeps to the view root as
long as everything that it is asked for does.
-/

namespace Pageweave

open LoadM

namespace ViewRoot

/-- A view path without the blanks around it and the separators before it. -/
def relative (viewPath : Text) : Path :=
  ⟨(Text.trim viewPath).dropWhile fun c => c = '/' || c = '\\'⟩

/-- The names that lead from the root directory to the view root. -/
def names (root : ViewRoot) : List Text :=
  root.path.course.down

/-- A view path comes down again along the names of the view root that it goes up from. -/
def StaysBelow (root : ViewRoot) (viewPath : Text) : Prop :=
  root.names.drop (root.names.length - (relative viewPath).course.up) <+:
    (relative viewPath).course.down

instance (root : ViewRoot) (viewPath : Text) : Decidable (root.StaysBelow viewPath) :=
  inferInstanceAs (Decidable (_ <+: _))

theorem isAbsolute_relative (viewPath : Text) : (relative viewPath).isAbsolute = false := by
  have stops := List.head?_dropWhile_not (fun c => c = '/' || c = '\\') (Text.trim viewPath)
  rw [relative, Path.isAbsolute, decide_eq_false_iff_not]
  intro slash
  rw [slash] at stops
  simp at stops

variable {workingDirectory path : Path}

theorem components_ofPath (absolute : workingDirectory.isAbsolute = true) :
    (ofPath workingDirectory path).path.components =
      .root :: (ofPath workingDirectory path).names.map .name := by
  have components_eq : (ofPath workingDirectory path).path.components = _ :=
    Path.components_normalize (Path.isAbsolute_join absolute path)
  rw [names, Path.course_of_components components_eq, components_eq]

theorem components_resolve (absolute : workingDirectory.isAbsolute = true) (viewPath : Text) :
    ((ofPath workingDirectory path).resolve viewPath).components =
      .root :: ((ofPath workingDirectory path).names.take
          ((ofPath workingDirectory path).names.length - (relative viewPath).course.up) ++
        (relative viewPath).course.down).map .name := by
  have root_eq : (ofPath workingDirectory path).path.components = _ := components_ofPath absolute
  apply Path.components_normalize_join _ root_eq
  · exact Path.isAbsolute_of_root_mem (by simp [root_eq])
  · exact isAbsolute_relative viewPath
  · exact fun name => Path.isName_of_mem_down

/-- A view path is resolved below the view root just if it comes down again to it. -/
theorem isWithin_resolve_iff (absolute : workingDirectory.isAbsolute = true) (viewPath : Text) :
    ((ofPath workingDirectory path).resolve viewPath).isWithin
        (ofPath workingDirectory path).path = true ↔
      (ofPath workingDirectory path).StaysBelow viewPath := by
  have injective : Function.Injective Path.Component.name := fun _ _ => Path.Component.name.inj
  rw [Path.isWithin, components_resolve absolute, components_ofPath absolute, StaysBelow,
    List.isPrefixOf_iff_prefix, List.cons_prefix_cons, List.prefix_map_iff_of_injective injective]
  generalize (ofPath workingDirectory path).names = names
  generalize names.length - (relative viewPath).course.up = kept
  nth_rewrite 1 [← List.take_append_drop kept names]
  rw [List.prefix_append_right_inj]
  simp

end ViewRoot

theorem Path.isWithin_trans {path directory root : Path}
    (inside : path.isWithin directory = true) (below : directory.isWithin root = true) :
    path.isWithin root = true := by
  rw [Path.isWithin, List.isPrefixOf_iff_prefix] at inside below ⊢
  exact below.trans inside

/-! ## What a load is asked for -/

namespace Loader

variable {loader : Loader} {source : FileSource} {context : Context} {viewPath : Text}
  {load : Text → LoadM Text}

/-- A view path is the one that is loaded, or an inclusion with this path was met in a scan. -/
def IsAsked (loader : Loader) (context : Context) (viewPath : Text) (accesses : List Access)
    (asked : Text) : Prop :=
  asked = viewPath ∨ ∃ entry content tag, .scan entry content ∈ accesses ∧
    (tag, asked) ∈
      (Scan.run context loader.maxSubstitutions (loader.embed context content)).inclusions

/-- A file version is listed at a path that was asked for. -/
def IsListed (loader : Loader) (source : FileSource) (context : Context) (viewPath : Text)
    (accesses : List Access) (entry : FileEntry) : Prop :=
  ∃ asked entries, loader.IsAsked context viewPath accesses asked ∧
    source.walk (loader.root.resolve asked) = .ok entries ∧ entry ∈ entries

/-- Files were listed only at paths that were asked for, and only what was listed was read. -/
structure ActsOnAsked (loader : Loader) (source : FileSource) (context : Context)
    (viewPath : Text) (accesses : List Access) : Prop where
  walks : ∀ path, .walk path ∈ accesses →
    ∃ asked, loader.IsAsked context viewPath accesses asked ∧ path = loader.root.resolve asked
  reads : ∀ path, .read path ∈ accesses →
    ∃ entry, loader.IsListed source context viewPath accesses entry ∧ path = entry.path

theorem IsAsked.mono {accesses later : List Access} {asked : Text}
    (isAsked : loader.IsAsked context viewPath accesses asked) (grown : accesses <+: later) :
    loader.IsAsked context viewPath later asked := by
  rcases isAsked with here | ⟨entry, content, tag, scanned, included⟩
  · exact Or.inl here
  · exact Or.inr ⟨entry, content, tag, grown.subset scanned, included⟩

theorem IsListed.mono {accesses later : List Access} {entry : FileEntry}
    (isListed : loader.IsListed source context viewPath accesses entry)
    (grown : accesses <+: later) : loader.IsListed source context viewPath later entry := by
  rcases isListed with ⟨asked, entries, isAsked, walked, entry_mem⟩
  exact ⟨asked, entries, isAsked.mono grown, walked, entry_mem⟩

/-- What is done next keeps to what was asked for if each walk and each read of it does. -/
theorem ActsOnAsked.append {accesses made : List Access}
    (acts : loader.ActsOnAsked source context viewPath accesses)
    (walks : ∀ path, .walk path ∈ made →
      ∃ asked, loader.IsAsked context viewPath accesses asked ∧ path = loader.root.resolve asked)
    (reads : ∀ path, .read path ∈ made →
      ∃ entry, loader.IsListed source context viewPath accesses entry ∧ path = entry.path) :
    loader.ActsOnAsked source context viewPath (accesses ++ made) where
  walks := by
    intro path walk_mem
    have origin : ∃ asked, loader.IsAsked context viewPath accesses asked ∧
        path = loader.root.resolve asked := by
      rcases List.mem_append.mp walk_mem with walk_mem | walk_mem
      · exact acts.walks path walk_mem
      · exact walks path walk_mem
    rcases origin with ⟨asked, isAsked, path_eq⟩
    exact ⟨asked, isAsked.mono (List.prefix_append _ _), path_eq⟩
  reads := by
    intro path read_mem
    have origin : ∃ entry, loader.IsListed source context viewPath accesses entry ∧
        path = entry.path := by
      rcases List.mem_append.mp read_mem with read_mem | read_mem
      · exact acts.reads path read_mem
      · exact reads path read_mem
    rcases origin with ⟨entry, isListed, path_eq⟩
    exact ⟨entry, isListed.mono (List.prefix_append _ _), path_eq⟩

theorem ActsOnAsked.did {accesses : List Access} {access : Access}
    (acts : loader.ActsOnAsked source context viewPath accesses)
    (walks : ∀ path, access = .walk path →
      ∃ asked, loader.IsAsked context viewPath accesses asked ∧ path = loader.root.resolve asked)
    (noRead : ∀ path, access ≠ .read path) :
    loader.ActsOnAsked source context viewPath (accesses ++ [access]) := by
  apply acts.append
  · intro path walk_mem
    exact walks path (List.mem_singleton.mp walk_mem).symm
  · intro path read_mem
    exact absurd (List.mem_singleton.mp read_mem).symm (noRead path)

/-- From the states that come after `start`, a computation keeps to what was asked for. -/
abbrev KeepsAsked {α : Type} (loader : Loader) (source : FileSource) (context : Context)
    (viewPath : Text) (start : LoadState) (x : LoadM α) : Prop :=
  Keeps (fun before left =>
    LoadState.Precedes start before ∧
        loader.ActsOnAsked source context viewPath before.accesses →
      LoadState.Precedes start left ∧
        loader.ActsOnAsked source context viewPath left.accesses) x

theorem keepsAsked_of_precedes {α : Type} {x : LoadM α} {start : LoadState}
    (grows : Keeps LoadState.Precedes x)
    (acts : ∀ state, LoadState.Precedes start state →
      loader.ActsOnAsked source context viewPath state.accesses →
      loader.ActsOnAsked source context viewPath (x.after state).accesses) :
    KeepsAsked loader source context viewPath start x :=
  fun state before =>
    ⟨trans_of LoadState.Precedes before.1 (grows state), acts state before.1 before.2⟩

theorem keeps_splice_of_inclusions {related : LoadState → LoadState → Prop}
    [IsPreorder LoadState related] (text : Text) (inclusions : List (Text × Text))
    (nested : ∀ inclusion ∈ inclusions, Keeps related (load inclusion.2)) :
    Keeps related (splice load text inclusions) := by
  apply keeps_foldlM
  intro text inclusion inclusion_mem
  exact keeps_bind (nested inclusion inclusion_mem) fun _ => keeps_pure _

theorem actsOnAsked_fetch {entry : FileEntry} {state : LoadState}
    (acts : loader.ActsOnAsked source context viewPath state.accesses)
    (isListed : loader.IsListed source context viewPath state.accesses entry) :
    loader.ActsOnAsked source context viewPath
      ((loader.fetch source entry).after state).accesses := by
  rcases loader.accesses_after_fetch source entry state with ⟨made, accesses_eq, made_eq⟩
  rw [accesses_eq]
  apply acts.append
  · intro path walk_mem
    rcases made_eq with rfl | rfl <;> simp at walk_mem
  · intro path read_mem
    rcases made_eq with rfl | rfl <;> simp at read_mem
    exact ⟨entry, isListed, read_mem⟩

theorem actsOnAsked_expandNew {entry : FileEntry} {state : LoadState}
    (grows : ∀ path, Keeps LoadState.Precedes (load path))
    (nested : ∀ path state, loader.IsAsked context viewPath state.accesses path →
      loader.ActsOnAsked source context viewPath state.accesses →
      loader.ActsOnAsked source context viewPath ((load path).after state).accesses)
    (acts : loader.ActsOnAsked source context viewPath state.accesses)
    (isListed : loader.IsListed source context viewPath state.accesses entry) :
    loader.ActsOnAsked source context viewPath
      ((loader.expandNew source context load entry).after state).accesses := by
  have fetched := actsOnAsked_fetch acts isListed
  rw [expandNew]
  cases outcome : (loader.fetch source entry).result state with
  | error failure =>
      rw [after_bind_of_error outcome]
      exact fetched
  | ok content =>
      rw [after_bind_of_ok outcome, after_bind_of_ok (result_record _ _), after_record,
        after_bind_of_ok (result_report _ _), after_report]
      have spliced : ∀ start : LoadState, .scan entry content ∈ start.accesses →
          KeepsAsked loader source context viewPath start
            (splice load (Scan.run context loader.maxSubstitutions
                (loader.embed context content)).text
              (Scan.run context loader.maxSubstitutions
                (loader.embed context content)).inclusions) := by
        intro start scanned
        apply keeps_splice_of_inclusions
        rintro ⟨tag, path⟩ inclusion_mem
        apply keepsAsked_of_precedes (grows path)
        intro state precedes
        apply nested
        exact Or.inr ⟨entry, content, tag, precedes.accesses.subset scanned, inclusion_mem⟩
      refine (spliced _ (by simp) _ ⟨refl_of LoadState.Precedes _, ?_⟩).2
      exact fetched.did (by simp) (by simp)

theorem actsOnAsked_expandEntry {entry : FileEntry} {state : LoadState}
    (grows : ∀ path, Keeps LoadState.Precedes (load path))
    (nested : ∀ path state, loader.IsAsked context viewPath state.accesses path →
      loader.ActsOnAsked source context viewPath state.accesses →
      loader.ActsOnAsked source context viewPath ((load path).after state).accesses)
    (acts : loader.ActsOnAsked source context viewPath state.accesses)
    (isListed : loader.IsListed source context viewPath state.accesses entry) :
    loader.ActsOnAsked source context viewPath
      ((loader.expandEntry source context load entry).after state).accesses := by
  by_cases seen : entry.key ∈ state.seen.keys
  · rw [after, expandEntry_of_seen seen]
    exact acts.did (by simp) (by simp)
  · rw [after, expandEntry_of_new seen]
    apply actsOnAsked_expandNew grows nested
    · exact acts.did (by simp) (by simp)
    · exact isListed.mono (List.prefix_append _ _)

/-- Loads that are asked for do nothing that was not asked for. The induction is on the nesting; a
nested load is asked for by the scan that met its inclusion. -/
theorem actsOnAsked_expandWithin (nesting : Nat) {asked : Text} {state : LoadState}
    (isAsked : loader.IsAsked context viewPath state.accesses asked)
    (acts : loader.ActsOnAsked source context viewPath state.accesses) :
    loader.ActsOnAsked source context viewPath
      ((loader.expandWithin source context nesting asked).after state).accesses := by
  induction nesting generalizing asked state with
  | zero => exact acts
  | succ nesting ih =>
      have walked : loader.ActsOnAsked source context viewPath
          (state.did (.walk (loader.root.resolve asked))).accesses := by
        apply acts.did _ (by simp)
        rintro path ⟨⟩
        exact ⟨asked, isAsked, rfl⟩
      rw [expandWithin]
      cases outcome : source.walk (loader.root.resolve asked) with
      | error failure =>
          rw [after_bind_of_error (by simpa using outcome), after_walk]
          exact walked
      | ok entries =>
          have grows := loader.precedes_expandWithin source context nesting
          have expanded : KeepsAsked loader source context viewPath
              (loader.afterListing source asked state)
              (loader.expandEntries source context
                (loader.expandWithin source context nesting) entries) := by
            apply keeps_expandEntries
            intro entry entry_mem
            apply keepsAsked_of_precedes (precedes_expandEntry grows entry)
            intro state precedes acts
            apply actsOnAsked_expandEntry grows (fun _ _ => ih) acts
            refine ⟨asked, entries, isAsked.mono ?_, outcome, entry_mem⟩
            exact (List.prefix_append _ _).trans precedes.accesses
          rw [after_bind_of_ok (by simpa using outcome), after_walk]
          exact (expanded _ ⟨refl_of LoadState.Precedes _, walked⟩).2

theorem actsOnAsked_load (loader : Loader) (source : FileSource) (context : Context)
    (viewPath : Text) (cache : Cache) (seen : SeenKeys) :
    loader.ActsOnAsked source context viewPath
      ((loader.load source context viewPath).after { cache, seen }).accesses :=
  actsOnAsked_expandWithin _ (Or.inl rfl) ⟨by simp, by simp⟩

end Loader

/-- A flat store lists the files at or below a path. -/
theorem FlatStore.isWithin_of_listed {store : FlatStore} {directory : Path}
    {entries : List FileEntry} {entry : FileEntry}
    (listed : store.source.walk directory = .ok entries) (entry_mem : entry ∈ entries) :
    entry.path.isWithin directory = true := by
  have entries_eq : store.entriesWithin directory = entries := by
    simp only [source] at listed
    split at listed
    · cases listed
    · exact Except.ok.inj listed
  rw [← entries_eq, entriesWithin] at entry_mem
  rcases List.mem_map.mp entry_mem with ⟨file, file_mem, rfl⟩
  exact (List.mem_filter.mp file_mem).2

/-- A view path is resolved below the view root just if it comes down again to it; and a load of
files that lie where they are listed keeps below the view root if all that it is asked for does. -/
theorem ViewRoot.confinement {workingDirectory path : Path}
    (absolute : workingDirectory.isAbsolute = true) :
    (∀ viewPath, ((ofPath workingDirectory path).resolve viewPath).isWithin
        (ofPath workingDirectory path).path = true ↔
      (ofPath workingDirectory path).StaysBelow viewPath) ∧
    ∀ (loader : Loader) (source : FileSource) (context : Context) (viewPath : Text)
      (cache : Cache) (seen : SeenKeys),
      loader.root = ofPath workingDirectory path →
      (∀ directory entries entry, source.walk directory = .ok entries → entry ∈ entries →
        entry.path.isWithin directory = true) →
      (∀ asked, loader.IsAsked context viewPath
          ((loader.load source context viewPath).after { cache, seen }).accesses asked →
        (ofPath workingDirectory path).StaysBelow asked) →
      ∀ place,
        .walk place ∈ ((loader.load source context viewPath).after { cache, seen }).accesses ∨
          .read place ∈ ((loader.load source context viewPath).after { cache, seen }).accesses →
        place.isWithin (ofPath workingDirectory path).path = true := by
  refine ⟨isWithin_resolve_iff absolute, ?_⟩
  intro loader source context viewPath cache seen root_eq lists stays place done
  have acts := loader.actsOnAsked_load source context viewPath cache seen
  have below : ∀ asked, loader.IsAsked context viewPath
      ((loader.load source context viewPath).after { cache, seen }).accesses asked →
      (loader.root.resolve asked).isWithin (ofPath workingDirectory path).path = true := by
    intro asked isAsked
    rw [root_eq]
    exact (isWithin_resolve_iff absolute asked).mpr (stays asked isAsked)
  rcases done with walked | read
  · rcases acts.walks place walked with ⟨asked, isAsked, rfl⟩
    exact below asked isAsked
  · rcases acts.reads place read with ⟨entry, ⟨asked, entries, isAsked, listed, entry_mem⟩, rfl⟩
    exact Path.isWithin_trans (lists _ entries entry listed entry_mem) (below asked isAsked)

namespace Confinement

/-- A page that goes up from the view root and down to it again, an item, and a file beside the
view root. -/
def store : FlatStore where
  files := [
    { path := Path.ofString "/views/page", modified := 1,
      content := Utf8.encode "(:include ../views/item:)".toList },
    { path := Path.ofString "/views/item", modified := 2, content := Utf8.encode "item".toList },
    { path := Path.ofString "/secret", modified := 3, content := Utf8.encode "secret".toList }]

/-- A loader of the views in the store. -/
def loader : Loader where
  root := ViewRoot.ofPath Path.rootDirectory (Path.ofString "views")
  minify := true
  contextAnchor := "</head>".toList
  clientVariable := "viewData".toList
  maxSubstitutions := 4096

theorem embed_of_read (text : Text) {path : Path} {bytes : Bytes}
    (stored : store.source.read path = .ok (Utf8.encode text))
    (processed : (Content.process true path (Utf8.encode text)).1 = text)
    (noComment : Text.search Snapshot.afterComment? text = none)
    (noAnchor : Snapshot.splitAtAnchor? "</head>".toList text = none)
    (answer : store.source.read path = .ok bytes) :
    loader.embed {} (Content.process loader.minify path bytes).1 = text := by
  rw [stored, Except.ok.injEq] at answer
  subst answer
  have processed' : (Content.process loader.minify path (Utf8.encode text)).1 = text := processed
  rw [processed', Loader.embed]
  exact Snapshot.embed_of_none noComment noAnchor

/-- The page asks for the item and nothing else is asked for. -/
theorem eq_of_isAsked {asked : Text}
    (isAsked : loader.IsAsked {} "page".toList
      ((loader.load store.source {} "page".toList).after {}).accesses asked) :
    asked = "page".toList ∨ asked = "../views/item".toList := by
  have versions_eq : store.source.versions = [⟨Path.ofString "/views/page", 1⟩,
      ⟨Path.ofString "/views/item", 2⟩, ⟨Path.ofString "/secret", 3⟩] := rfl
  have distinct : Set.InjOn FileEntry.key {entry | entry ∈ store.source.versions} := by
    have nodup : (store.source.versions.map FileEntry.key).Nodup := by decide
    intro first first_mem second second_mem same
    exact List.inj_on_of_nodup_map nodup first_mem second_mem same
  rcases isAsked with here | ⟨entry, content, tag, scanned, included⟩
  · exact Or.inl here
  · right
    rcases Loader.scanned_of_load distinct scanned with ⟨entry_mem, bytes, answer, rfl⟩
    simp only [versions_eq, List.mem_cons, List.not_mem_nil, or_false] at entry_mem
    rcases entry_mem with rfl | rfl | rfl
    · rw [embed_of_read "(:include ../views/item:)".toList (by cbv) (by cbv)
        (by cbv) (by decide +kernel) answer] at included
      have inclusions_eq :
          (Scan.run {} loader.maxSubstitutions "(:include ../views/item:)".toList).inclusions =
            [("(:include ../views/item:)".toList, "../views/item".toList)] := by cbv
      rw [inclusions_eq, List.mem_singleton, Prod.mk.injEq] at included
      exact included.2
    · rw [embed_of_read "item".toList (by cbv) (by cbv) (by cbv)
        (by decide +kernel) answer] at included
      have inclusions_eq :
          (Scan.run {} loader.maxSubstitutions "item".toList).inclusions = [] := by cbv
      rw [inclusions_eq] at included
      cases included
    · rw [embed_of_read "secret".toList (by cbv) (by cbv) (by cbv)
        (by decide +kernel) answer] at included
      have inclusions_eq :
          (Scan.run {} loader.maxSubstitutions "secret".toList).inclusions = [] := by cbv
      rw [inclusions_eq] at included
      cases included

end Confinement

/-- The page is asked for its item by a way that leads up from the view root and down to it again,
and the load of it stays below the view root. -/
theorem ViewRoot.confinement_page :
    Path.rootDirectory.isAbsolute = true ∧
      (Confinement.loader.root.resolve "../views/item".toList).isWithin
        Confinement.loader.root.path = true ∧
      ∀ place,
        .walk place ∈ ((Confinement.loader.load Confinement.store.source {} "page".toList).after
            {}).accesses ∨
          .read place ∈ ((Confinement.loader.load Confinement.store.source {} "page".toList).after
            {}).accesses →
        place.isWithin Confinement.loader.root.path = true := by
  have absolute : Path.rootDirectory.isAbsolute = true := rfl
  have confined := @confinement Path.rootDirectory (Path.ofString "views") absolute
  have page_stays : Confinement.loader.root.StaysBelow "page".toList := by decide
  have item_stays : Confinement.loader.root.StaysBelow "../views/item".toList := by decide
  refine ⟨absolute, (confined.1 _).mpr item_stays, ?_⟩
  apply confined.2 Confinement.loader Confinement.store.source {} "page".toList {} {} rfl
  · intro directory entries entry
    exact FlatStore.isWithin_of_listed
  · intro asked isAsked
    rcases Confinement.eq_of_isAsked isAsked with rfl | rfl
    · exact page_stays
    · exact item_stays

/-- A view path that goes up from the view root leads out of it. -/
theorem ViewRoot.resolve_secret_outside :
    ¬∀ (workingDirectory path : Path) (viewPath : Text), workingDirectory.isAbsolute = true →
      ((ofPath workingDirectory path).resolve viewPath).isWithin
        (ofPath workingDirectory path).path = true := by
  intro confined
  have outside : ((ofPath Path.rootDirectory (Path.ofString "views")).resolve
      "../secret".toList).isWithin
        (ofPath Path.rootDirectory (Path.ofString "views")).path = false := by
    cbv
  have inside := confined Path.rootDirectory (Path.ofString "views") "../secret".toList rfl
  rw [outside] at inside
  cases inside

end Pageweave
