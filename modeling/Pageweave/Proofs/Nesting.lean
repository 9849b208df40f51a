import Mathlib.Data.Finset.Basic
import Mathlib.Data.Finset.Card
import Pageweave.Proofs.Loading

/-!
# Nested loads

Loads nest without a bound that is known beforehand: a file may include itself, two files each
other, or a file the directory it lies in, and substituted values may hold inclusions. That a load
ends rests on the seen keys alone. Each nested load begins with the expansion of a file version
whose key was not seen before, and from then on that key is seen; so the number of keys that are
still unseen falls from one load to the loads nested in it.

`Loader.expandNested` makes the nesting visible. It leaves every load below a given depth to
another computation. Once the depth exceeds the number of unseen keys, it does not matter what that
computation does, since it is never asked.
-/

namespace Pageweave

open LoadM

/-- The keys of the file versions that a source offers. -/
def FileSource.keys (source : FileSource) : Finset Key :=
  (source.versions.map FileEntry.key).toFinset

/-- The keys that a source offers and that have not been seen. -/
def FileSource.unseen (source : FileSource) (seen : SeenKeys) : Finset Key :=
  source.keys \ seen.keys.toFinset

theorem FileSource.card_unseen_le_of_prefix {source : FileSource} {earlier later : SeenKeys}
    (grown : earlier.keys <+: later.keys) :
    (source.unseen later).card ≤ (source.unseen earlier).card := by
  apply Finset.card_le_card
  apply Finset.sdiff_subset_sdiff (Finset.Subset.refl _)
  intro key key_mem
  simp only [List.mem_toFinset] at key_mem ⊢
  exact grown.subset key_mem

theorem FileSource.card_unseen_begin_lt {source : FileSource} {state : LoadState}
    {entry : FileEntry} (entry_mem : entry ∈ source.versions)
    (new : entry.key ∉ state.seen.keys) :
    (source.unseen (state.begin entry).seen).card < (source.unseen state.seen).card := by
  apply Finset.card_lt_card
  rw [Finset.ssubset_iff_of_subset]
  · refine ⟨entry.key, ?_, ?_⟩
    · simp only [unseen, keys, Finset.mem_sdiff, List.mem_toFinset, List.mem_map]
      exact ⟨⟨entry, entry_mem, rfl⟩, new⟩
    · simp [unseen, LoadState.begin]
  · apply Finset.sdiff_subset_sdiff (Finset.Subset.refl _)
    intro key key_mem
    simp only [LoadState.begin, List.mem_toFinset, List.mem_append] at key_mem ⊢
    exact Or.inl key_mem

theorem FileSource.card_unseen_le (source : FileSource) (seen : SeenKeys) :
    (source.unseen seen).card ≤ source.versions.length := by
  calc (source.unseen seen).card
      ≤ source.keys.card := Finset.card_le_card Finset.sdiff_subset
    _ ≤ (source.versions.map FileEntry.key).length := List.toFinset_card_le _
    _ = source.versions.length := List.length_map _

namespace Loader

/-- The expansion of the view at a path; a load that would be nested in `nesting` others is left to
`deeper`. -/
def expandNested (loader : Loader) (source : FileSource) (context : Context)
    (deeper : Text → LoadM Text) : (nesting : Nat) → (viewPath : Text) → LoadM Text
  | 0, viewPath => deeper viewPath
  | nesting + 1, viewPath => do
      let path := loader.root.resolve viewPath
      let entries ← LoadM.walk source (.loading path) path
      loader.expandEntries source context
        (loader.expandNested source context deeper nesting) entries

variable {loader : Loader} {source : FileSource} {context : Context} {deeper : Text → LoadM Text}

theorem expandNested_eq_expandWithin (loader : Loader) (source : FileSource) (context : Context)
    (nesting : Nat) :
    loader.expandNested source context (fun _ => return []) nesting =
      loader.expandWithin source context nesting := by
  induction nesting with
  | zero => rfl
  | succ nesting ih =>
      funext viewPath
      rw [expandNested, expandWithin, ih]

/-- The two runs are in the same state, with fewer unseen keys than the loads that may nest. -/
def Bounded (source : FileSource) (nesting : Nat) (first second : LoadState) : Prop :=
  first = second ∧ (source.unseen first.seen).card < nesting

theorem agree_bounded_of_precedes {α : Type} {x : LoadM α} {nesting : Nat}
    (grows : Keeps LoadState.Precedes x) :
    Agree (fun _ => True) (Bounded source nesting) Eq x x := by
  apply agree_self
  intro state few
  exact Nat.lt_of_le_of_lt (FileSource.card_unseen_le_of_prefix (grows state).seen) few

theorem parallel_bounded (source : FileSource) (nesting : Nat) :
    Parallel (Bounded source nesting) where
  did := fun access start => ⟨congrArg (·.did access) start.1, start.2⟩
  logged := fun entries start => ⟨congrArg (·.logged entries) start.1, start.2⟩

/-- With fewer unseen keys than loads that may nest, it makes no difference how many more may nest
and what deeper loads are left to. The induction is on the nesting; a key that is seen for the
first time pays for each step. -/
theorem agree_expandNested (deeper' : Text → LoadM Text) (nesting extra : Nat) (viewPath : Text) :
    Agree (fun _ => True) (Bounded source nesting) Eq
      (loader.expandNested source context deeper nesting viewPath)
      (loader.expandNested source context deeper' (nesting + extra) viewPath) := by
  induction nesting generalizing viewPath with
  | zero =>
      rintro state _ ⟨-, few⟩
      simp at few
  | succ nesting ih =>
      rw [Nat.succ_add, expandNested, expandNested]
      apply agree_bind (agree_walk (parallel_bounded source _) _ _)
      · rintro entries _ ⟨rfl, walked⟩
        apply agree_expandEntries
        · intro entry entry_mem
          apply agree_expandEntry
          · rintro state _ ⟨rfl, -⟩
            rfl
          · exact parallel_bounded source _
          · rintro state _ ⟨rfl, few⟩ new -
            have fewer := FileSource.card_unseen_begin_lt
              (source.mem_versions walked entry_mem) new
            have begun : Bounded source nesting (state.begin entry) (state.begin entry) :=
              ⟨rfl, by omega⟩
            rcases agree_expandNew
              (agree_bounded_of_precedes (loader.precedes_fetch source entry))
              (parallel_bounded source nesting) ih (fun _ _ _ _ => trivial)
              (fun _ _ _ => trivial) _ _ begun trivial with
              ⟨sameResult, sameState, left⟩
            exact ⟨sameResult, sameState, by omega⟩
        · exact fun _ _ _ _ => trivial
      · exact fun _ _ _ => trivial

theorem expandNested_run_eq_add (deeper' : Text → LoadM Text) (extra : Nat) (state : LoadState)
    (viewPath : Text) :
    (loader.expandNested source context deeper ((source.unseen state.seen).card + 1)
        viewPath).run.run state =
      (loader.expandNested source context deeper' ((source.unseen state.seen).card + 1 + extra)
        viewPath).run.run state := by
  have start : Bounded source ((source.unseen state.seen).card + 1) state state :=
    ⟨rfl, Nat.lt_succ_self _⟩
  rcases agree_expandNested deeper' _ extra viewPath state state start trivial with
    ⟨sameResult, sameState, -⟩
  exact Prod.ext (matches_eq_iff.mp sameResult) sameState

/-- A bound on the nesting that exceeds the number of unseen keys is as good as any other. -/
theorem expandNested_run_eq_load {nesting : Nat} {state : LoadState}
    (enough : (source.unseen state.seen).card < nesting) (viewPath : Text) :
    (loader.expandNested source context deeper nesting viewPath).run.run state =
      (loader.load source context viewPath).run.run state := by
  rcases Nat.exists_eq_add_of_le enough with ⟨extra, rfl⟩
  rcases Nat.exists_eq_add_of_le (source.card_unseen_le state.seen) with ⟨extra', versions_eq⟩
  rw [load, ← expandNested_eq_expandWithin, versions_eq, Nat.add_right_comm]
  calc (loader.expandNested source context deeper ((source.unseen state.seen).card + 1 + extra)
        viewPath).run.run state
      = (loader.expandNested source context deeper ((source.unseen state.seen).card + 1)
          viewPath).run.run state := (expandNested_run_eq_add deeper extra state viewPath).symm
    _ = _ := expandNested_run_eq_add _ extra' state viewPath

/-- A load lists the files at its path and expands them, with loads for their inclusions. -/
theorem load_unfold (loader : Loader) (source : FileSource) (context : Context) (viewPath : Text) :
    loader.load source context viewPath = (do
      let path := loader.root.resolve viewPath
      let entries ← LoadM.walk source (.loading path) path
      loader.expandEntries source context (loader.load source context) entries) := by
  have nested_eq : loader.load source context = loader.expandNested source context
      (loader.load source context) (source.versions.length + 1) := by
    funext path state
    have few := Nat.lt_succ_of_le (source.card_unseen_le state.seen)
    exact (expandNested_run_eq_load few path).symm
  funext state
  have enough : (source.unseen state.seen).card < source.versions.length + 1 + 1 :=
    Nat.lt_succ_of_lt (Nat.lt_succ_of_le (source.card_unseen_le state.seen))
  calc (loader.load source context viewPath).run.run state
      = (loader.expandNested source context (loader.load source context)
          (source.versions.length + 1 + 1) viewPath).run.run state :=
        (expandNested_run_eq_load enough viewPath).symm
    _ = _ := by rw [expandNested, ← nested_eq]; rfl

theorem load_of_walked {viewPath : Text} {entries : List FileEntry}
    (walked : source.walk (loader.root.resolve viewPath) = .ok entries) (state : LoadState) :
    (loader.load source context viewPath).run.run state =
      (loader.expandEntries source context (loader.load source context) entries).run.run
        (loader.afterListing source viewPath state) := by
  rw [load_unfold, run_run_bind, result_walk, walked, after_walk]
  rfl

end Loader

/-! ## One chain of includes -/

/-- The file version whose expansion was begun, if one was. -/
def Access.expanded? : Access → Option FileEntry
  | expand entry => some entry
  | walk _ | skip _ | fetch _ | read _ | scan _ _ => none

/-- The file version whose content was asked for, if one was. -/
def Access.fetched? : Access → Option FileEntry
  | fetch entry => some entry
  | walk _ | skip _ | expand _ | read _ | scan _ _ => none

/-- What was `made` of a chain of includes between two states: each expansion is of a file version
with a new key and asks for its content, and the seen keys grow by the keys of the expansions. -/
structure Chain (made : List Access) (earlier later : LoadState) : Prop where
  accesses : later.accesses = earlier.accesses ++ made
  seen : later.seen.keys =
    earlier.seen.keys ++ (made.filterMap Access.expanded?).map FileEntry.key
  fetched : made.filterMap Access.fetched? = made.filterMap Access.expanded?
  distinct : ((made.filterMap Access.expanded?).map FileEntry.key).Nodup
  new : ∀ key ∈ (made.filterMap Access.expanded?).map FileEntry.key, key ∉ earlier.seen.keys

/-- One state comes before another in a chain of includes. -/
def Chained (earlier later : LoadState) : Prop :=
  ∃ made, Chain made earlier later

theorem Chain.append {made made' : List Access} {first second third : LoadState}
    (front : Chain made first second) (back : Chain made' second third) :
    Chain (made ++ made') first third where
  accesses := by rw [back.accesses, front.accesses, List.append_assoc]
  seen := by rw [back.seen, front.seen, List.filterMap_append, List.map_append, List.append_assoc]
  fetched := by rw [List.filterMap_append, List.filterMap_append, front.fetched, back.fetched]
  distinct := by
    rw [List.filterMap_append, List.map_append]
    apply front.distinct.append back.distinct
    intro key front_mem back_mem
    apply back.new key back_mem
    rw [front.seen]
    exact List.mem_append_right _ front_mem
  new := by
    intro key key_mem seen
    rw [List.filterMap_append, List.map_append, List.mem_append] at key_mem
    rcases key_mem with front_mem | back_mem
    · exact front.new key front_mem seen
    · apply back.new key back_mem
      rw [front.seen]
      exact List.mem_append_left _ seen

instance : IsPreorder LoadState Chained where
  refl state := ⟨[], by constructor <;> simp⟩
  trans _ _ _ := fun ⟨_, front⟩ ⟨_, back⟩ => ⟨_, front.append back⟩

/-- The beginning of an expansion continues a chain. -/
theorem chained_of_begin {earlier later : LoadState} {entry : FileEntry} {made : List Access}
    (accesses : later.accesses = earlier.accesses ++ .expand entry :: .fetch entry :: made)
    (seen : later.seen.keys = earlier.seen.keys ++ [entry.key])
    (new : entry.key ∉ earlier.seen.keys) (expanded : made.filterMap Access.expanded? = [])
    (fetched : made.filterMap Access.fetched? = []) : Chained earlier later := by
  have expansions : (Access.expand entry :: .fetch entry :: made).filterMap Access.expanded? =
      [entry] := by
    change entry :: made.filterMap Access.expanded? = [entry]
    rw [expanded]
  have questions : (Access.expand entry :: .fetch entry :: made).filterMap Access.fetched? =
      [entry] := by
    change entry :: made.filterMap Access.fetched? = [entry]
    rw [fetched]
  refine ⟨_, accesses, ?_, ?_, ?_, ?_⟩
  · rw [seen, expansions, List.map_singleton]
  · rw [questions, expansions]
  · simp [expansions]
  · simpa [expansions] using new

/-- Anything done that is neither an expansion nor a question for content continues a chain. -/
theorem chained_of_accesses {earlier later : LoadState} {made : List Access}
    (accesses : later.accesses = earlier.accesses ++ made) (seen : later.seen = earlier.seen)
    (expanded : made.filterMap Access.expanded? = [])
    (fetched : made.filterMap Access.fetched? = []) : Chained earlier later := by
  refine ⟨made, accesses, ?_, ?_, ?_, ?_⟩
  · rw [seen, expanded, List.map_nil, List.append_nil]
  · rw [expanded, fetched]
  · simp [expanded]
  · simp [expanded]

namespace Loader

variable {loader : Loader} {source : FileSource} {context : Context} {load : Text → LoadM Text}

/-- The expansion of a new file version begins with a question for its content. -/
theorem chained_fetch_begin {state : LoadState} {entry : FileEntry}
    (new : entry.key ∉ state.seen.keys) :
    Chained state ((loader.fetch source entry).after (state.begin entry)) := by
  rcases loader.fetch_cases source entry (state.begin entry) with
    ⟨content, -, ran⟩ | ⟨failure, -, -, ran⟩ | ⟨bytes, -, -, ran⟩ <;>
  · rw [after, ran]
    exact chained_of_begin (List.append_assoc _ _ _) rfl new rfl rfl

theorem chained_record {access : Access} (expanded : access.expanded? = none)
    (fetched : access.fetched? = none) : Keeps Chained (record access) :=
  fun _ => chained_of_accesses rfl rfl (by simp [expanded]) (by simp [fetched])

theorem chained_report (notices : List Notice) : Keeps Chained (report notices) :=
  fun _ => chained_of_accesses (List.append_nil _).symm rfl rfl rfl

theorem chained_expandEntry (nested : ∀ path, Keeps Chained (load path)) (entry : FileEntry) :
    Keeps Chained (loader.expandEntry source context load entry) := by
  intro state
  by_cases seen : entry.key ∈ state.seen.keys
  · rw [after, expandEntry_of_seen seen]
    exact chained_of_accesses rfl rfl rfl rfl
  · rw [after, expandEntry_of_new seen]
    apply related_after_bind (chained_fetch_begin seen)
    intro content
    apply keeps_bind (chained_record rfl rfl)
    intro _
    apply keeps_bind (chained_report _)
    intro _
    exact keeps_splice nested _ _

theorem chained_load (loader : Loader) (source : FileSource) (context : Context)
    (viewPath : Text) : Keeps Chained (loader.load source context viewPath) := by
  apply keeps_expandWithin
  · intro purpose path state
    rw [after_walk]
    exact chained_of_accesses rfl rfl rfl rfl
  · intro load nested entry _
    exact chained_expandEntry nested entry

/-- Whatever the files include, a load follows its recursion to an end: loads nest at most one more
deeply than there are unseen keys, each key is asked for and expanded at most once, and the keys
seen in the end are those seen at the start and then those of the expansions. -/
theorem load_terminates (loader : Loader) (source : FileSource) (context : Context)
    (viewPath : Text) (state : LoadState) :
    (loader.load source context viewPath = do
      let path := loader.root.resolve viewPath
      let entries ← LoadM.walk source (.loading path) path
      loader.expandEntries source context (loader.load source context) entries) ∧
    (∀ (deeper : Text → LoadM Text) (nesting : Nat),
      1 + (source.unseen state.seen).card ≤ nesting →
      (loader.expandNested source context deeper nesting viewPath).run.run state =
        (loader.load source context viewPath).run.run state) ∧
    ∃ made : List Access,
      ((loader.load source context viewPath).after state).accesses = state.accesses ++ made ∧
      ((loader.load source context viewPath).after state).seen.keys =
        state.seen.keys ++ (made.filterMap Access.fetched?).map FileEntry.key ∧
      made.filterMap Access.expanded? = made.filterMap Access.fetched? ∧
      ((made.filterMap Access.fetched?).map FileEntry.key).Nodup ∧
      ∀ key ∈ (made.filterMap Access.fetched?).map FileEntry.key, key ∉ state.seen.keys := by
  refine ⟨load_unfold loader source context viewPath, ?_, ?_⟩
  · intro deeper nesting enough
    exact expandNested_run_eq_load (by omega) viewPath
  · rcases loader.chained_load source context viewPath state with ⟨made, chain⟩
    refine ⟨made, chain.accesses, ?_, chain.fetched.symm, ?_, ?_⟩
    · rw [chain.fetched]
      exact chain.seen
    · rw [chain.fetched]
      exact chain.distinct
    · rw [chain.fetched]
      exact chain.new

end Loader

end Pageweave
