import Mathlib.Data.List.Basic
import Mathlib.Order.Defs.Unbundled
import Pageweave.Load.Basic

/-!
# Runs of loads

A load started in a state comes to a result or a failure, and leaves a state in either case. This
file gives the laws by which runs are put together, for one run and for two runs side by side.

`Keeps` says of one computation how the state it leaves relates to the one it is started in,
whether it succeeds or fails. `Agree` says of two computations that they come to matching results
and keep their states related; `AgreeFrom` says this of one pair of states to start in. The first
argument restricts the runs that are looked at by what the first one leaves behind; it is used
where a hypothesis is about what a load does on its way.
-/

namespace Pageweave

/-- The state in which one more thing was done with a file. -/
def LoadState.did (state : LoadState) (access : Access) : LoadState :=
  { state with accesses := state.accesses ++ [access] }

@[simp]
theorem LoadState.did_cache (state : LoadState) (access : Access) :
    (state.did access).cache = state.cache := rfl

@[simp]
theorem LoadState.did_seen (state : LoadState) (access : Access) :
    (state.did access).seen = state.seen := rfl

@[simp]
theorem LoadState.did_accesses (state : LoadState) (access : Access) :
    (state.did access).accesses = state.accesses ++ [access] := rfl

/-- The state in which more was added to the log. -/
def LoadState.logged (state : LoadState) (entries : List LogEntry) : LoadState :=
  { state with log := state.log ++ entries }

@[simp]
theorem LoadState.logged_cache (state : LoadState) (entries : List LogEntry) :
    (state.logged entries).cache = state.cache := rfl

@[simp]
theorem LoadState.logged_seen (state : LoadState) (entries : List LogEntry) :
    (state.logged entries).seen = state.seen := rfl

@[simp]
theorem LoadState.logged_accesses (state : LoadState) (entries : List LogEntry) :
    (state.logged entries).accesses = state.accesses := rfl

theorem LoadState.notices_logged (state : LoadState) (entries : List LogEntry) :
    (state.logged entries).notices = state.notices ++ entries.filterMap LogEntry.notice? :=
  List.filterMap_append

/-- Details are no notices. -/
theorem LoadState.notices_logged_details (state : LoadState) (details : List Detail) :
    (state.logged (details.map .detail)).notices = state.notices := by
  rw [notices_logged, LogEntry.filterMap_notice?_map_detail, List.append_nil]

/-- The state in which the files at a path were asked for. -/
def LoadState.walked (state : LoadState) (source : FileSource) (purpose : Detail) (path : Path) :
    LoadState :=
  (state.did (.walk path)).logged ((purpose :: source.listed path).map .detail)

@[simp]
theorem LoadState.walked_cache (state : LoadState) (source : FileSource) (purpose : Detail)
    (path : Path) : (state.walked source purpose path).cache = state.cache := rfl

@[simp]
theorem LoadState.walked_seen (state : LoadState) (source : FileSource) (purpose : Detail)
    (path : Path) : (state.walked source purpose path).seen = state.seen := rfl

@[simp]
theorem LoadState.walked_accesses (state : LoadState) (source : FileSource) (purpose : Detail)
    (path : Path) :
    (state.walked source purpose path).accesses = state.accesses ++ [.walk path] := rfl

namespace LoadM

variable {α β γ δ : Type}

/-- What a computation comes to when it is started in a state. -/
def result (x : LoadM α) (state : LoadState) : Except ViewFailure α :=
  (x.run.run state).1

/-- The state a computation leaves when it is started in a state. -/
def after (x : LoadM α) (state : LoadState) : LoadState :=
  (x.run.run state).2

theorem run_run_pure (value : α) (state : LoadState) :
    (pure value : LoadM α).run.run state = (.ok value, state) := rfl

theorem run_run_bind (x : LoadM α) (f : α → LoadM β) (state : LoadState) :
    (x >>= f).run.run state =
      match x.result state with
      | .ok value => (f value).run.run (x.after state)
      | .error failure => (.error failure, x.after state) := by
  simp only [result, after, ExceptT.run_bind, StateT.run_bind]
  rcases x.run.run state with ⟨outcome, left⟩
  cases outcome with
  | ok value => rfl
  | error failure => rfl

section Bind

variable {x : LoadM α} {f : α → LoadM β} {state : LoadState}

theorem result_bind_of_ok {value : α} (succeeds : x.result state = .ok value) :
    (x >>= f).result state = (f value).result (x.after state) := by
  change ((x >>= f).run.run state).1 = _
  rw [run_run_bind, succeeds]
  rfl

theorem after_bind_of_ok {value : α} (succeeds : x.result state = .ok value) :
    (x >>= f).after state = (f value).after (x.after state) := by
  change ((x >>= f).run.run state).2 = _
  rw [run_run_bind, succeeds]
  rfl

theorem result_bind_of_error {failure : ViewFailure} (fails : x.result state = .error failure) :
    (x >>= f).result state = .error failure := by
  change ((x >>= f).run.run state).1 = _
  rw [run_run_bind, fails]

theorem after_bind_of_error {failure : ViewFailure} (fails : x.result state = .error failure) :
    (x >>= f).after state = x.after state := by
  change ((x >>= f).run.run state).2 = _
  rw [run_run_bind, fails]

theorem result_bind_eq_ok {value : β} (succeeds : (x >>= f).result state = .ok value) :
    ∃ middle, x.result state = .ok middle ∧ (f middle).result (x.after state) = .ok value := by
  cases outcome : x.result state with
  | error failure => simp [result_bind_of_error outcome] at succeeds
  | ok middle => exact ⟨middle, rfl, by rwa [result_bind_of_ok outcome] at succeeds⟩

theorem after_bind_pure (x : LoadM α) (f : α → β) (state : LoadState) :
    (x >>= fun value => pure (f value)).after state = x.after state := by
  cases outcome : x.result state with
  | error failure => exact after_bind_of_error outcome
  | ok value => exact after_bind_of_ok outcome

theorem result_map (f : α → β) (x : LoadM α) (state : LoadState) :
    (f <$> x).result state = (x.result state).map f := by
  rw [map_eq_pure_bind]
  cases outcome : x.result state with
  | error failure => rw [result_bind_of_error outcome]; rfl
  | ok value => rw [result_bind_of_ok outcome]; rfl

theorem after_map (f : α → β) (x : LoadM α) (state : LoadState) :
    (f <$> x).after state = x.after state := by
  rw [map_eq_pure_bind]
  exact after_bind_pure x f state

theorem after_discard (x : LoadM α) (state : LoadState) :
    (discard x).after state = x.after state :=
  after_bind_pure x (fun _ => ()) state

theorem run_run_discard_congr {x y : LoadM α} {state : LoadState}
    (same : x.run.run state = y.run.run state) :
    (discard x).run.run state = (discard y).run.run state := by
  change (x >>= fun _ => pure ()).run.run state = (y >>= fun _ => pure ()).run.run state
  simp only [run_run_bind, result, after, same]

end Bind

@[simp]
theorem result_pure (value : α) (state : LoadState) :
    (pure value : LoadM α).result state = .ok value := rfl

@[simp]
theorem after_pure (value : α) (state : LoadState) :
    (pure value : LoadM α).after state = state := rfl

@[simp]
theorem result_record (access : Access) (state : LoadState) :
    (record access).result state = .ok () := rfl

@[simp]
theorem after_record (access : Access) (state : LoadState) :
    (record access).after state = state.did access := rfl

@[simp]
theorem result_report (notices : List Notice) (state : LoadState) :
    (report notices).result state = .ok () := rfl

@[simp]
theorem after_report (notices : List Notice) (state : LoadState) :
    (report notices).after state = state.logged (notices.map .notice) := rfl

@[simp]
theorem result_tell (details : List Detail) (state : LoadState) :
    (tell details).result state = .ok () := rfl

@[simp]
theorem after_tell (details : List Detail) (state : LoadState) :
    (tell details).after state = state.logged (details.map .detail) := rfl

@[simp]
theorem result_markSeen (key : Key) (state : LoadState) :
    (markSeen key).result state = .ok (!state.seen.contains key) := rfl

@[simp]
theorem after_markSeen (key : Key) (state : LoadState) :
    (markSeen key).after state = { state with seen := state.seen.insert key } := rfl

@[simp]
theorem result_ask (key : Key) (state : LoadState) :
    (ask key).result state = .ok (state.cache.ask key).1 := rfl

@[simp]
theorem after_ask (key : Key) (state : LoadState) :
    (ask key).after state = { state with cache := (state.cache.ask key).2 } := rfl

@[simp]
theorem result_store (key : Key) (content : Text) (state : LoadState) :
    (store key content).result state = .ok () := rfl

@[simp]
theorem after_store (key : Key) (content : Text) (state : LoadState) :
    (store key content).after state =
      { state with cache := state.cache.insert key content } := rfl

@[simp]
theorem result_read (source : FileSource) (path : Path) (state : LoadState) :
    (read source path).result state = (source.read path).mapError .file := by
  rw [read, result_bind_of_ok (result_record _ _)]
  cases source.read path <;> rfl

@[simp]
theorem after_read (source : FileSource) (path : Path) (state : LoadState) :
    (read source path).after state = state.did (.read path) := by
  rw [read, after_bind_of_ok (result_record _ _)]
  cases source.read path <;> rfl

@[simp]
theorem result_walk (source : FileSource) (purpose : Detail) (path : Path) (state : LoadState) :
    (walk source purpose path).result state = source.walk path := by
  rw [walk, result_bind_of_ok (result_tell _ _), result_bind_of_ok (result_record _ _),
    result_bind_of_ok (result_tell _ _)]
  cases source.walk path <;> rfl

@[simp]
theorem after_walk (source : FileSource) (purpose : Detail) (path : Path) (state : LoadState) :
    (walk source purpose path).after state = state.walked source purpose path := by
  have logged : state.walked source purpose path =
      ((state.logged [.detail purpose]).did (.walk path)).logged
        ((source.listed path).map .detail) := by
    simp [LoadState.walked, LoadState.logged, LoadState.did]
  rw [walk, after_bind_of_ok (result_tell _ _), after_bind_of_ok (result_record _ _),
    after_bind_of_ok (result_tell _ _), logged]
  cases source.walk path <;> rfl

/-! ## One run -/

/-- The state a computation leaves is always related to the one it is started in. -/
def Keeps (related : LoadState → LoadState → Prop) (x : LoadM α) : Prop :=
  ∀ state, related state (x.after state)

/-- What stays true along a run is a relation between states to be kept. -/
instance (holds : LoadState → Prop) :
    IsPreorder LoadState (fun before left => holds before → holds left) where
  refl _ := id
  trans _ _ _ first second := second ∘ first

section Keeps

variable {related : LoadState → LoadState → Prop} [IsPreorder LoadState related]

theorem keeps_pure (value : α) : Keeps related (pure value : LoadM α) :=
  fun state => refl_of related state

theorem related_after_bind {x : LoadM α} {f : α → LoadM β} {start state : LoadState}
    (first : related start (x.after state)) (next : ∀ value, Keeps related (f value)) :
    related start ((x >>= f).after state) := by
  cases outcome : x.result state with
  | ok value =>
      rw [after_bind_of_ok outcome]
      exact trans_of related first (next value _)
  | error failure =>
      rw [after_bind_of_error outcome]
      exact first

theorem keeps_bind {x : LoadM α} {f : α → LoadM β} (first : Keeps related x)
    (next : ∀ value, Keeps related (f value)) : Keeps related (x >>= f) :=
  fun state => related_after_bind (first state) next

theorem keeps_foldlM {step : β → α → LoadM β} {items : List α}
    (each : ∀ value, ∀ item ∈ items, Keeps related (step value item)) (start : β) :
    Keeps related (items.foldlM step start) := by
  induction items generalizing start with
  | nil => exact keeps_pure start
  | cons item items ih =>
      rw [List.foldlM_cons]
      apply keeps_bind (each start item (by simp))
      intro value
      apply ih
      intro value other other_mem
      exact each value other (by simp [other_mem])

/-- If every step of a successful fold makes something true of its item and no step undoes it, it is
true of all items in the end. -/
theorem holds_of_foldlM_eq_ok (holds : α → LoadState → Prop) {step : β → α → LoadM β}
    {items : List α} {start value : β} {state : LoadState}
    (each : ∀ value, ∀ item ∈ items, ∀ state, holds item ((step value item).after state))
    (stays : ∀ value, ∀ item ∈ items, ∀ other, Keeps
      (fun before left => holds other before → holds other left) (step value item))
    (succeeds : (items.foldlM step start).result state = .ok value) :
    ∀ item ∈ items, holds item ((items.foldlM step start).after state) := by
  induction items generalizing start state with
  | nil => simp
  | cons item items ih =>
      rw [List.foldlM_cons] at succeeds ⊢
      rcases result_bind_eq_ok succeeds with ⟨middle, stepped, succeeds'⟩
      rw [after_bind_of_ok stepped]
      have stays' : ∀ value, ∀ item ∈ items, ∀ other, Keeps
          (fun before left => holds other before → holds other left) (step value item) :=
        fun value other other_mem => stays value other (by simp [other_mem])
      intro other other_mem
      rcases List.mem_cons.mp other_mem with rfl | other_mem
      · apply keeps_foldlM (fun value item item_mem => stays' value item item_mem other) middle
        exact each start other (by simp) state
      · apply ih _ stays' succeeds' other other_mem
        exact fun value item item_mem => each value item (by simp [item_mem])

theorem keeps_forM {step : α → LoadM PUnit} {items : List α}
    (each : ∀ item ∈ items, Keeps related (step item)) : Keeps related (items.forM step) := by
  induction items with
  | nil => exact keeps_pure _
  | cons item items ih =>
      rw [List.forM_eq_forM, List.forM_cons]
      apply keeps_bind (each item (by simp))
      intro _
      exact ih fun other other_mem => each other (by simp [other_mem])

theorem keeps_discard {x : LoadM α} (kept : Keeps related x) : Keeps related (discard x) :=
  keeps_bind kept fun _ => keeps_pure _

end Keeps

/-! ## Two runs -/

/-- Both runs fail in the same way, or both succeed with matching values. -/
def Matches (matching : α → β → Prop) : Except ViewFailure α → Except ViewFailure β → Prop
  | .ok first, .ok second => matching first second
  | .error first, .error second => first = second
  | _, _ => False

theorem matches_eq_iff {first second : Except ViewFailure α} :
    Matches Eq first second ↔ first = second := by
  cases first <;> cases second <;> simp [Matches]

theorem Matches.mono {matching matching' : α → β → Prop} {first : Except ViewFailure α}
    {second : Except ViewFailure β} (same : Matches matching first second)
    (fits : ∀ value value', matching value value' → matching' value value') :
    Matches matching' first second := by
  cases first with
  | ok value =>
      cases second with
      | ok value' => exact fits value value' same
      | error failure => exact same
  | error failure =>
      cases second with
      | ok value => exact same
      | error failure' => exact same

/-- If the later of two states is admissible, so is the earlier one. -/
def Reflects (admissible : LoadState → Prop) (earlier later : LoadState) : Prop :=
  admissible later → admissible earlier

instance (admissible : LoadState → Prop) : IsPreorder LoadState (Reflects admissible) where
  refl _ := id
  trans _ _ _ first second := first ∘ second

/-- Started in two states, two computations come to matching results and leave related states,
provided the state that the first one leaves is admissible. -/
def AgreeFrom (admissible : LoadState → Prop) (related : LoadState → LoadState → Prop)
    (matching : α → β → Prop) (x : LoadM α) (y : LoadM β) (first second : LoadState) : Prop :=
  admissible (x.after first) →
    Matches matching (x.result first) (y.result second) ∧ related (x.after first) (y.after second)

/-- Two computations agree from all related states. -/
def Agree (admissible : LoadState → Prop) (related : LoadState → LoadState → Prop)
    (matching : α → β → Prop) (x : LoadM α) (y : LoadM β) : Prop :=
  ∀ first second, related first second → AgreeFrom admissible related matching x y first second

section Agree

variable {admissible : LoadState → Prop} {related : LoadState → LoadState → Prop}

theorem agree_self {good : LoadState → Prop} {x : LoadM α}
    (kept : Keeps (fun before left => good before → good left) x) :
    Agree admissible (fun first second => first = second ∧ good first) Eq x x := by
  rintro state _ ⟨rfl, holds⟩ _
  exact ⟨matches_eq_iff.mpr rfl, rfl, kept state holds⟩

theorem agree_pure {matching : α → β → Prop} {first : α} {second : β}
    (same : matching first second) :
    Agree admissible related matching (pure first) (pure second) :=
  fun _ _ start _ => ⟨same, start⟩

theorem agreeFrom_bind {matching : α → β → Prop} {matching' : γ → δ → Prop}
    {x : LoadM α} {y : LoadM β} {f : α → LoadM γ} {g : β → LoadM δ} {s t : LoadState}
    (first : AgreeFrom admissible related matching x y s t)
    (next : ∀ value value', x.result s = .ok value → matching value value' →
      related (x.after s) (y.after t) →
      AgreeFrom admissible related matching' (f value) (g value') (x.after s) (y.after t))
    (earlier : ∀ value, Keeps (Reflects admissible) (f value)) :
    AgreeFrom admissible related matching' (x >>= f) (y >>= g) s t := by
  intro allowed
  cases outcome : x.result s with
  | error failure =>
      rw [after_bind_of_error outcome] at allowed
      rcases first allowed with ⟨same, still⟩
      rw [outcome] at same
      cases outcome' : y.result t with
      | ok value => simp [outcome', Matches] at same
      | error failure' =>
          rw [outcome'] at same
          rw [result_bind_of_error outcome, after_bind_of_error outcome,
            result_bind_of_error outcome', after_bind_of_error outcome']
          exact ⟨same, still⟩
  | ok value =>
      rw [after_bind_of_ok outcome] at allowed
      rcases first (earlier value _ allowed) with ⟨same, still⟩
      rw [outcome] at same
      cases outcome' : y.result t with
      | error failure => simp [outcome', Matches] at same
      | ok value' =>
          rw [outcome'] at same
          rw [result_bind_of_ok outcome, after_bind_of_ok outcome,
            result_bind_of_ok outcome', after_bind_of_ok outcome']
          exact next value value' outcome same still allowed

/-- A step that only the first computation takes leads on to the rest of it. -/
theorem agreeFrom_bind_left {matching : β → γ → Prop} {x : LoadM α} {f : α → LoadM β}
    {y : LoadM γ} {s t : LoadState} {value : α} (succeeds : x.result s = .ok value)
    (rest : AgreeFrom admissible related matching (f value) y (x.after s) t) :
    AgreeFrom admissible related matching (x >>= f) y s t := by
  intro allowed
  rw [after_bind_of_ok succeeds] at allowed
  rw [result_bind_of_ok succeeds, after_bind_of_ok succeeds]
  exact rest allowed

/-- What is done with the value of the second computation only has to fit the matching. -/
theorem agreeFrom_map_right {matching : α → β → Prop} {matching' : α → γ → Prop}
    {x : LoadM α} {y : LoadM β} {g : β → γ} {s t : LoadState}
    (agrees : AgreeFrom admissible related matching x y s t)
    (fits : ∀ value value', matching value value' → matching' value (g value')) :
    AgreeFrom admissible related matching' x (y >>= fun value => pure (g value)) s t := by
  intro allowed
  rcases agrees allowed with ⟨same, still⟩
  cases outcome' : y.result t with
  | error failure' =>
      rw [result_bind_of_error outcome', after_bind_of_error outcome']
      refine ⟨?_, still⟩
      rw [outcome'] at same
      cases outcome : x.result s with
      | error failure => rwa [outcome] at same
      | ok value => simp [outcome, Matches] at same
  | ok value' =>
      rw [result_bind_of_ok outcome', after_bind_of_ok outcome']
      refine ⟨?_, still⟩
      rw [outcome'] at same
      cases outcome : x.result s with
      | error failure => simp [outcome, Matches] at same
      | ok value =>
          rw [outcome] at same
          exact fits value value' same

theorem agree_bind {matching : α → β → Prop} {matching' : γ → δ → Prop}
    {x : LoadM α} {y : LoadM β} {f : α → LoadM γ} {g : β → LoadM δ}
    (first : Agree admissible related matching x y)
    (next : ∀ value value', matching value value' →
      Agree admissible related matching' (f value) (g value'))
    (earlier : ∀ value, Keeps (Reflects admissible) (f value)) :
    Agree admissible related matching' (x >>= f) (y >>= g) := by
  intro s t start
  apply agreeFrom_bind (first s t start) _ earlier
  intro value value' _ same still
  exact next value value' same _ _ still

theorem agree_foldlM {matching : β → γ → Prop} {step : β → α → LoadM β}
    {step' : γ → α → LoadM γ} {items : List α}
    (each : ∀ item ∈ items, ∀ value value', matching value value' →
      Agree admissible related matching (step value item) (step' value' item))
    (earlier : ∀ value, ∀ item ∈ items, Keeps (Reflects admissible) (step value item))
    {start : β} {start' : γ} (same : matching start start') :
    Agree admissible related matching (items.foldlM step start) (items.foldlM step' start') := by
  induction items generalizing start start' with
  | nil => exact agree_pure same
  | cons item items ih =>
      rw [List.foldlM_cons, List.foldlM_cons]
      apply agree_bind (each item (by simp) start start' same)
      · intro value value' same'
        apply ih _ _ same'
        · intro other other_mem
          exact each other (by simp [other_mem])
        · intro value other other_mem
          exact earlier value other (by simp [other_mem])
      · intro value
        apply keeps_foldlM
        intro value other other_mem
        exact earlier value other (by simp [other_mem])

end Agree

end LoadM

end Pageweave
