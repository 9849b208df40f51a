import Mathlib.Logic.Function.Iterate
import Pageweave.Engine
import Pageweave.Proofs.Nesting

/-!
# Files that change

A source stands for files that stay as they are. Here the files may change between any two calls of
an operation: a timeline says how they are at the time of each call. Setting up, preloading and
loading are stated over timelines by `Engine.setupOver`, `Loader.preloadOver` and
`Loader.expandOver`. Over a source that stays the same they are the operations of an engine, as
`Task.run_setup`, `Task.run_preload` and `Task.run_load` say; and `Task.run_eq_of_agree` says that
it only matters how the files are at the times of the calls that a task makes.

Where files change all the time there may be no end to the inclusions, and so `Loader.expandOver`
takes a bound on the nesting. `Loader.run_expandOver_of_few` says that the bound makes no difference
to a load that begins fewer expansions.

`Conforms` says of a computation what it does up to its end or its first failure.
`Task.conforms_run` is the one induction over all that an operation does: a specification that is
met by listing files, by fetching a content and by the records in between is met by all tasks.
-/

namespace Pageweave

open LoadM

/-- Whether files are asked for. -/
def Access.isCall : Access → Bool
  | walk _ | read _ => true
  | skip _ | expand _ | fetch _ | scan _ _ => false

/-- The calls in a log may be counted one after the other. -/
theorem Access.countP_isCall_cons (access : Access) (accesses : List Access) (calls : Nat) :
    (if access.isCall then calls + 1 else calls) + accesses.countP isCall =
      calls + (access :: accesses).countP isCall := by
  rw [List.countP_cons]
  split <;> omega

/-- The number of calls for files so far. -/
def LoadState.calls (state : LoadState) : Nat :=
  state.accesses.countP Access.isCall

theorem LoadState.calls_did (state : LoadState) (access : Access) :
    (state.did access).calls = state.calls + if access.isCall then 1 else 0 := by
  rw [calls, did_accesses, List.countP_append, List.countP_singleton, calls]

theorem LoadState.calls_walked (state : LoadState) (source : FileSource) (purpose : Detail)
    (path : Path) : (state.walked source purpose path).calls = state.calls + 1 :=
  state.calls_did (.walk path)

theorem LoadState.calls_begin (state : LoadState) (entry : FileEntry) :
    (state.begin entry).calls = state.calls :=
  state.calls_did (.expand entry)

theorem LoadState.Precedes.calls_le {earlier later : LoadState}
    (precedes : earlier.Precedes later) : earlier.calls ≤ later.calls :=
  precedes.accesses.sublist.countP_le

/-- Files in the course of time. -/
structure Timeline where
  /-- The files at the time when so many calls for them have been made. -/
  files : Nat → FileSource

namespace Timeline

/-- Files that do not change. -/
def still (source : FileSource) : Timeline where
  files _ := source

/-- A computation with the files as they are when it begins. -/
def now {α : Type} (timeline : Timeline) (x : FileSource → LoadM α) : LoadM α := do
  let state ← get
  x (timeline.files state.calls)

theorem run_now {α : Type} (timeline : Timeline) (x : FileSource → LoadM α) (state : LoadState) :
    (timeline.now x).run.run state = (x (timeline.files state.calls)).run.run state := rfl

end Timeline

namespace Loader

/-- The expansion of the view at a path, where the files may change from call to call; `load` is
used for inclusions. -/
def loadOver (loader : Loader) (timeline : Timeline) (context : Context)
    (load : Text → LoadM Text) (viewPath : Text) : LoadM Text := do
  let path := loader.root.resolve viewPath
  let entries ← timeline.now fun source => LoadM.walk source (.loading path) path
  entries.foldlM (fun output entry => do
    let expansion ← timeline.now fun source => loader.expandEntry source context load entry
    return output ++ expansion) []

/-- The expansion of the view at a path, where at most `nesting` loads may be nested and the files
may change from call to call. If they do so all the time a load need not end by itself. -/
def expandOver (loader : Loader) (timeline : Timeline) (context : Context) :
    (nesting : Nat) → (viewPath : Text) → LoadM Text
  | 0, _ => return []
  | nesting + 1, viewPath =>
      loader.loadOver timeline context (loader.expandOver timeline context nesting) viewPath

/-- Caches the files at a view path, where the files may change from call to call. -/
def preloadOver (loader : Loader) (timeline : Timeline) (viewPath : Text) : LoadM Nat := do
  let path := loader.root.resolve viewPath
  let entries ← timeline.now fun source => LoadM.walk source (.preloading path) path
  entries.forM fun entry => discard (timeline.now fun source => loader.fetch source entry)
  return entries.length

/-- Nothing changes between the beginning of an expansion and the first call in it. -/
theorem now_expandEntry (loader : Loader) (timeline : Timeline) (context : Context)
    (load : Text → LoadM Text) (entry : FileEntry) :
    (timeline.now fun source => loader.expandEntry source context load entry) = (do
      if ← markSeen entry.key then
        record (.expand entry)
        timeline.now fun source => loader.expandNew source context load entry
      else
        record (.skip entry)
        tell [.passedOver entry.key]
        return []) := by
  funext state
  change (loader.expandEntry (timeline.files state.calls) context load entry).run.run state =
    (_ >>= _ : LoadM Text).run.run state
  by_cases seen : entry.key ∈ state.seen.keys
  · rw [expandEntry_of_seen seen, run_markSeen_of_seen seen]
    rfl
  · rw [expandEntry_of_new seen, run_markSeen_of_new seen, ← state.calls_begin entry]
    rfl

theorem expandOver_still (loader : Loader) (source : FileSource) (context : Context)
    (nesting : Nat) :
    loader.expandOver (.still source) context nesting =
      loader.expandWithin source context nesting := by
  induction nesting with
  | zero => rfl
  | succ nesting ih =>
      funext viewPath
      rw [expandOver, expandWithin, ih]
      rfl

theorem preloadOver_still (loader : Loader) (source : FileSource) (viewPath : Text) :
    loader.preloadOver (.still source) viewPath = loader.preload source viewPath := rfl

end Loader

/-- Caches the files of every preload root, where the files may change from call to call. -/
def Engine.setupOver (engine : Engine) (timeline : Timeline) : LoadM Nat := do
  if engine.config.preloads = [] then return 0
  LoadM.tell [.settingUp]
  let total ← engine.config.preloads.foldlM (fun total viewPath => do
    return total + (← engine.loader.preloadOver timeline viewPath)) 0
  LoadM.report [.preloaded total]
  return total

theorem Engine.setupOver_still (engine : Engine) (source : FileSource) :
    engine.setupOver (.still source) = engine.setup source := rfl

/-! ## Tasks -/

/-- Something to be done, one after another, by engines that share a cache. -/
inductive Task where
  /-- The files of the preload roots are cached. -/
  | setup (engine : Engine)
  /-- The files at a view path are cached. -/
  | preload (loader : Loader) (viewPath : Text)
  /-- The view at a path is loaded with the data of a context, in a chain of includes in which some
  keys were seen before. -/
  | load (loader : Loader) (seen : SeenKeys) (context : Context) (nesting : Nat) (viewPath : Text)

namespace Task

/-- The loader that the task is done with. -/
def loader : Task → Loader
  | setup engine => engine.loader
  | preload loader _ | load loader _ _ _ _ => loader

/-- Does the task. -/
def run (timeline : Timeline) : Task → LoadM Unit
  | setup engine => discard (engine.setupOver timeline)
  | preload loader viewPath => discard (loader.preloadOver timeline viewPath)
  | load loader seen context nesting viewPath => do
      modify fun state => { state with seen }
      discard (loader.expandOver timeline context nesting viewPath)

/-- The state after tasks that are done one after another, whether they succeed or fail. -/
def afterAll (timeline : Timeline) (tasks : List Task) (state : LoadState) : LoadState :=
  tasks.foldl (fun state task => (task.run timeline).after state) state

theorem run_setup (engine : Engine) (source : FileSource) :
    (setup engine).run (.still source) = discard (engine.setup source) :=
  congrArg discard (engine.setupOver_still source)

theorem run_preload (loader : Loader) (source : FileSource) (viewPath : Text) :
    (preload loader viewPath).run (.still source) = discard (loader.preload source viewPath) :=
  congrArg discard (loader.preloadOver_still source viewPath)

theorem run_load (engine : Engine) (source : FileSource) (context : Context) (viewPath : Text) :
    (load engine.loader {} context (source.versions.length + 1) viewPath).run (.still source) =
      discard (engine.loadView source context viewPath) := by
  rw [run, Loader.expandOver_still]
  rfl

end Task

/-! ## The times that count -/

/-- Two timelines have the same files at the times of the calls between two states. -/
def Timeline.AgreeBetween (timeline timeline' : Timeline) (earlier later : LoadState) : Prop :=
  ∀ calls, earlier.calls ≤ calls → calls < later.calls →
    timeline.files calls = timeline'.files calls

/-- A computation looks at the files at no other times than those of the calls that it makes. -/
structure Timely {α : Type} (x : Timeline → LoadM α) : Prop where
  grows : ∀ timeline state, state.calls ≤ ((x timeline).after state).calls
  run_eq : ∀ timeline timeline' state,
    timeline.AgreeBetween timeline' state ((x timeline).after state) →
      (x timeline).run.run state = (x timeline').run.run state

section Timely

variable {α β : Type}

theorem timely_const {x : LoadM α} (grows : ∀ state, state.calls ≤ (x.after state).calls) :
    Timely fun _ => x :=
  ⟨fun _ => grows, fun _ _ _ _ => rfl⟩

theorem timely_pure (value : α) : Timely fun _ => (pure value : LoadM α) :=
  timely_const fun _ => Nat.le_refl _

theorem timely_record (access : Access) : Timely fun _ => record access :=
  timely_const fun state => (Loader.precedes_record access state).calls_le

theorem timely_report (notices : List Notice) : Timely fun _ => report notices :=
  timely_const fun _ => Nat.le_refl _

theorem timely_tell (details : List Detail) : Timely fun _ => tell details :=
  timely_const fun _ => Nat.le_refl _

theorem timely_bind {x : Timeline → LoadM α} {f : Timeline → α → LoadM β} (first : Timely x)
    (next : ∀ value, Timely fun timeline => f timeline value) :
    Timely fun timeline => x timeline >>= f timeline := by
  have grows : ∀ timeline state, ((x timeline).after state).calls ≤
      ((x timeline >>= f timeline).after state).calls := by
    intro timeline state
    cases outcome : (x timeline).result state with
    | ok value =>
        rw [after_bind_of_ok outcome]
        exact (next value).grows timeline _
    | error failure => rw [after_bind_of_error outcome]
  refine ⟨fun timeline state =>
    Nat.le_trans (first.grows timeline state) (grows timeline state), ?_⟩
  intro timeline timeline' state agree
  have run_eq := first.run_eq timeline timeline' state fun calls started made =>
    agree calls started (Nat.lt_of_lt_of_le made (grows timeline state))
  have result_eq : (x timeline).result state = (x timeline').result state :=
    congrArg Prod.fst run_eq
  have after_eq : (x timeline).after state = (x timeline').after state :=
    congrArg Prod.snd run_eq
  rw [run_run_bind, run_run_bind, ← result_eq, ← after_eq]
  cases outcome : (x timeline).result state with
  | error failure => rfl
  | ok value =>
      apply (next value).run_eq
      intro calls started made
      rw [← after_bind_of_ok outcome] at made
      exact agree calls (Nat.le_trans (first.grows timeline state) started) made

theorem timely_discard {x : Timeline → LoadM α} (timely : Timely x) :
    Timely fun timeline => discard (x timeline) :=
  timely_bind timely fun _ => timely_pure _

theorem timely_foldlM {step : Timeline → β → α → LoadM β}
    (each : ∀ value item, Timely fun timeline => step timeline value item) (items : List α)
    (start : β) : Timely fun timeline => items.foldlM (step timeline) start := by
  induction items generalizing start with
  | nil => exact timely_pure start
  | cons item items ih =>
      simp only [List.foldlM_cons]
      exact timely_bind (each start item) ih

theorem timely_forM {step : Timeline → α → LoadM PUnit}
    (each : ∀ item, Timely fun timeline => step timeline item) (items : List α) :
    Timely fun timeline => items.forM (step timeline) := by
  induction items with
  | nil => exact timely_pure _
  | cons item items ih =>
      simp only [List.forM_eq_forM, List.forM_cons]
      exact timely_bind (each item) fun _ => ih

end Timely

namespace Loader

variable {loader : Loader} {load : Timeline → Text → LoadM Text}

theorem timely_walk (purpose : Detail) (path : Path) :
    Timely fun timeline => timeline.now fun source => LoadM.walk source purpose path := by
  have called : ∀ (timeline : Timeline) state,
      ((timeline.now fun source => LoadM.walk source purpose path).after state).calls =
        state.calls + 1 := by
    intro timeline state
    change ((LoadM.walk (timeline.files state.calls) purpose path).after state).calls = _
    rw [after_walk, LoadState.calls_walked]
  refine ⟨fun timeline state => (called timeline state).symm ▸ Nat.le_succ _, ?_⟩
  intro timeline timeline' state agree
  rw [Timeline.run_now, Timeline.run_now,
    agree state.calls (Nat.le_refl _) ((called timeline state).symm ▸ Nat.lt_succ_self _)]

theorem calls_after_fetch (loader : Loader) (source : FileSource) {entry : FileEntry}
    {state : LoadState} (absent : state.cache.find? entry.key = none) :
    ((loader.fetch source entry).after state).calls = state.calls + 1 := by
  rcases loader.fetch_cases source entry state with
    ⟨content, found, -⟩ | ⟨failure, -, -, ran⟩ | ⟨bytes, -, -, ran⟩
  · rw [absent] at found
    cases found
  · rw [after, ran]
    exact List.countP_append
  · rw [after, ran]
    exact List.countP_append

/-- A content that is cached does not depend on the files, and any other one is read. -/
theorem timely_fetch (loader : Loader) (entry : FileEntry) :
    Timely fun timeline => timeline.now fun source => loader.fetch source entry := by
  refine ⟨fun timeline state => (loader.precedes_fetch _ entry state).calls_le, ?_⟩
  intro timeline timeline' state agree
  rw [Timeline.run_now, Timeline.run_now]
  cases found : state.cache.find? entry.key with
  | some content => rw [fetch_of_cached found, fetch_of_cached found]
  | none =>
      have called : ((timeline.now fun source => loader.fetch source entry).after state).calls =
          state.calls + 1 :=
        loader.calls_after_fetch (timeline.files state.calls) found
      rw [agree state.calls (Nat.le_refl _) (called.symm ▸ Nat.lt_succ_self _)]

theorem timely_splice (nested : ∀ path, Timely fun timeline => load timeline path)
    (text : Text) (inclusions : List (Text × Text)) :
    Timely fun timeline => splice (load timeline) text inclusions := by
  apply timely_foldlM
  intro text inclusion
  exact timely_bind (nested inclusion.2) fun _ => timely_pure _

theorem timely_expandNew (context : Context)
    (nested : ∀ path, Timely fun timeline => load timeline path) (entry : FileEntry) :
    Timely fun timeline => timeline.now fun source =>
      loader.expandNew source context (load timeline) entry := by
  apply timely_bind (loader.timely_fetch entry)
  intro content
  apply timely_bind (timely_record _)
  intro _
  apply timely_bind (timely_report _)
  intro _
  exact timely_splice nested _ _

theorem timely_expandEntry (context : Context)
    (nested : ∀ path, Timely fun timeline => load timeline path) (entry : FileEntry) :
    Timely fun timeline => timeline.now fun source =>
      loader.expandEntry source context (load timeline) entry := by
  simp only [now_expandEntry]
  apply timely_bind (timely_const fun _ => Nat.le_refl _)
  intro new
  cases new with
  | true =>
      apply timely_bind (timely_record _)
      intro _
      exact timely_expandNew context nested entry
  | false =>
      apply timely_bind (timely_record _)
      intro _
      exact timely_bind (timely_tell _) fun _ => timely_pure _

theorem timely_expandOver (loader : Loader) (context : Context) (nesting : Nat) (viewPath : Text) :
    Timely fun timeline => loader.expandOver timeline context nesting viewPath := by
  induction nesting generalizing viewPath with
  | zero => exact timely_pure _
  | succ nesting ih =>
      apply timely_bind (timely_walk _ _)
      intro entries
      apply timely_foldlM
      intro output entry
      exact timely_bind (timely_expandEntry context ih entry) fun _ => timely_pure _

theorem timely_preloadOver (loader : Loader) (viewPath : Text) :
    Timely fun timeline => loader.preloadOver timeline viewPath := by
  apply timely_bind (timely_walk _ _)
  intro entries
  apply timely_bind
  · exact timely_forM (fun entry => timely_discard (loader.timely_fetch entry)) entries
  · exact fun _ => timely_pure _

end Loader

theorem Engine.timely_setupOver (engine : Engine) :
    Timely fun timeline => engine.setupOver timeline := by
  simp only [setupOver]
  split
  · exact timely_pure _
  · apply timely_bind (timely_tell _)
    intro _
    apply timely_bind
    · apply timely_foldlM
      intro total viewPath
      exact timely_bind (engine.loader.timely_preloadOver viewPath) fun _ => timely_pure _
    · exact fun total => timely_bind (timely_report _) fun _ => timely_pure _

theorem Task.timely_run (task : Task) : Timely fun timeline => task.run timeline := by
  cases task with
  | setup engine => exact timely_discard engine.timely_setupOver
  | preload loader viewPath => exact timely_discard (loader.timely_preloadOver viewPath)
  | load loader seen context nesting viewPath =>
      apply timely_bind (timely_const fun _ => Nat.le_refl _)
      exact fun _ => timely_discard (loader.timely_expandOver context nesting viewPath)

/-- A task does the same with files that are the same whenever it makes a call. So it does what the
operation of the engine does, if the files do not change while it is done. -/
theorem Task.run_eq_of_agree (task : Task) {timeline timeline' : Timeline} {state : LoadState}
    (agree : timeline.AgreeBetween timeline' state ((task.run timeline).after state)) :
    (task.run timeline).run.run state = (task.run timeline').run.run state :=
  task.timely_run.run_eq timeline timeline' state agree

/-! ## Specifications up to the first failure -/

namespace LoadM

variable {α β : Type}

/-- The failure that a computation ends with, if it does not succeed. -/
def failure? (x : LoadM α) (state : LoadState) : Option ViewFailure :=
  match x.result state with
  | .ok _ => none
  | .error failure => some failure

section

variable {x : LoadM α} {state : LoadState}

theorem failure?_of_ok {value : α} (succeeds : x.result state = .ok value) :
    x.failure? state = none := by
  rw [failure?, succeeds]

theorem failure?_of_error {failure : ViewFailure} (fails : x.result state = .error failure) :
    x.failure? state = some failure := by
  rw [failure?, fails]

end

/-- From every state, a computation comes to an end, with a failure or without one, and to a state
that are as specified. -/
def Conforms (spec : LoadState → Option ViewFailure → LoadState → Prop) (x : LoadM α) : Prop :=
  ∀ state, spec state (x.failure? state) (x.after state)

/-- A specification is met by doing nothing, and by two computations one after the other that meet
it, if the first one succeeds. -/
structure Composes (spec : LoadState → Option ViewFailure → LoadState → Prop) : Prop where
  rests : ∀ state, spec state none state
  goesOn : ∀ {first middle last failure?}, spec first none middle → spec middle failure? last →
    spec first failure? last

section Conforms

variable {spec : LoadState → Option ViewFailure → LoadState → Prop} (composes : Composes spec)

include composes

theorem conforms_pure (value : α) : Conforms spec (pure value : LoadM α) :=
  composes.rests

theorem spec_bind {x : LoadM α} {f : α → LoadM β} {state : LoadState}
    (first : spec state (x.failure? state) (x.after state))
    (next : ∀ value, Conforms spec (f value)) :
    spec state ((x >>= f).failure? state) ((x >>= f).after state) := by
  cases outcome : x.result state with
  | ok value =>
      rw [failure?_of_ok outcome] at first
      rw [failure?, result_bind_of_ok outcome, after_bind_of_ok outcome]
      exact composes.goesOn first (next value _)
  | error failure =>
      rw [failure?_of_error outcome] at first
      rw [failure?, result_bind_of_error outcome, after_bind_of_error outcome]
      exact first

theorem conforms_bind {x : LoadM α} {f : α → LoadM β} (first : Conforms spec x)
    (next : ∀ value, Conforms spec (f value)) : Conforms spec (x >>= f) :=
  fun state => spec_bind composes (first state) next

theorem conforms_discard {x : LoadM α} (conforms : Conforms spec x) :
    Conforms spec (discard x) :=
  conforms_bind composes conforms fun _ => conforms_pure composes _

theorem conforms_foldlM {step : β → α → LoadM β}
    (each : ∀ value item, Conforms spec (step value item)) (items : List α) (start : β) :
    Conforms spec (items.foldlM step start) := by
  induction items generalizing start with
  | nil => exact conforms_pure composes start
  | cons item items ih =>
      rw [List.foldlM_cons]
      exact conforms_bind composes (each start item) ih

theorem conforms_forM {step : α → LoadM PUnit} (each : ∀ item, Conforms spec (step item))
    (items : List α) : Conforms spec (items.forM step) := by
  induction items with
  | nil => exact conforms_pure composes _
  | cons item items ih =>
      rw [List.forM_eq_forM, List.forM_cons]
      exact conforms_bind composes (each item) fun _ => ih

theorem conforms_splice {load : Text → LoadM Text} (nested : ∀ path, Conforms spec (load path))
    (text : Text) (inclusions : List (Text × Text)) :
    Conforms spec (Loader.splice load text inclusions) := by
  apply conforms_foldlM composes
  intro text inclusion
  exact conforms_bind composes (nested inclusion.2) fun _ => conforms_pure composes _

end Conforms

end LoadM

/-- A specification is met by all that a loader does step by step: files are listed, contents are
fetched, and in between it is recorded what was seen, done and logged. -/
structure Timeline.Steps (timeline : Timeline) (loader : Loader)
    (spec : LoadState → Option ViewFailure → LoadState → Prop) : Prop extends Composes spec where
  walks : ∀ purpose path,
    Conforms spec (timeline.now fun source => LoadM.walk source purpose path)
  fetches : ∀ entry, Conforms spec (timeline.now fun source => loader.fetch source entry)
  does : ∀ state access, access.isCall = false → access.fetched? = none →
    spec state none (state.did access)
  notes : ∀ state seen log, spec state none { state with seen, log }

namespace Timeline.Steps

variable {timeline : Timeline} {loader : Loader} {context : Context}
  {spec : LoadState → Option ViewFailure → LoadState → Prop} (steps : timeline.Steps loader spec)

include steps

theorem conforms_log (entries : List LogEntry) : Conforms spec (log entries) :=
  fun state => steps.notes state state.seen (state.log ++ entries)

theorem conforms_report (notices : List Notice) : Conforms spec (report notices) :=
  steps.conforms_log _

theorem conforms_tell (details : List Detail) : Conforms spec (tell details) :=
  steps.conforms_log _

theorem conforms_record {access : Access} (noCall : access.isCall = false)
    (noFetch : access.fetched? = none) : Conforms spec (record access) :=
  fun state => steps.does state access noCall noFetch

theorem conforms_see (seen : SeenKeys) :
    Conforms spec (modify fun state => { state with seen } : LoadM Unit) :=
  fun state => steps.notes state seen state.log

theorem conforms_markSeen (key : Key) : Conforms spec (markSeen key) :=
  fun state => steps.notes state (state.seen.insert key) state.log

theorem conforms_expandNew {load : Text → LoadM Text} (nested : ∀ path, Conforms spec (load path))
    (entry : FileEntry) :
    Conforms spec (timeline.now fun source => loader.expandNew source context load entry) := by
  apply conforms_bind steps.toComposes (steps.fetches entry)
  intro content
  apply conforms_bind steps.toComposes (steps.conforms_record rfl rfl)
  intro _
  apply conforms_bind steps.toComposes (steps.conforms_report _)
  intro _
  exact conforms_splice steps.toComposes nested _ _

theorem conforms_expandEntry {load : Text → LoadM Text}
    (nested : ∀ path, Conforms spec (load path)) (entry : FileEntry) :
    Conforms spec (timeline.now fun source => loader.expandEntry source context load entry) := by
  rw [Loader.now_expandEntry]
  apply conforms_bind steps.toComposes (steps.conforms_markSeen entry.key)
  intro new
  cases new with
  | true =>
      apply conforms_bind steps.toComposes (steps.conforms_record rfl rfl)
      intro _
      exact steps.conforms_expandNew nested entry
  | false =>
      apply conforms_bind steps.toComposes (steps.conforms_record rfl rfl)
      intro _
      apply conforms_bind steps.toComposes (steps.conforms_tell _)
      exact fun _ => conforms_pure steps.toComposes _

/-- The induction is on the nesting. -/
theorem conforms_expandOver (context : Context) (nesting : Nat) (viewPath : Text) :
    Conforms spec (loader.expandOver timeline context nesting viewPath) := by
  induction nesting generalizing viewPath with
  | zero => exact conforms_pure steps.toComposes _
  | succ nesting ih =>
      apply conforms_bind steps.toComposes (steps.walks _ _)
      intro entries
      apply conforms_foldlM steps.toComposes
      intro output entry
      apply conforms_bind steps.toComposes (steps.conforms_expandEntry ih entry)
      exact fun _ => conforms_pure steps.toComposes _

theorem conforms_preloadOver (viewPath : Text) :
    Conforms spec (loader.preloadOver timeline viewPath) := by
  apply conforms_bind steps.toComposes (steps.walks _ _)
  intro entries
  apply conforms_bind steps.toComposes
  · apply conforms_forM steps.toComposes
    exact fun entry => conforms_discard steps.toComposes (steps.fetches entry)
  · exact fun _ => conforms_pure steps.toComposes _

end Timeline.Steps

theorem Timeline.Steps.conforms_setupOver {timeline : Timeline} {engine : Engine}
    {spec : LoadState → Option ViewFailure → LoadState → Prop}
    (steps : timeline.Steps engine.loader spec) : Conforms spec (engine.setupOver timeline) := by
  rw [Engine.setupOver]
  split
  · exact conforms_pure steps.toComposes _
  · apply conforms_bind steps.toComposes (steps.conforms_tell _)
    intro _
    apply conforms_bind steps.toComposes
    · apply conforms_foldlM steps.toComposes
      intro total viewPath
      apply conforms_bind steps.toComposes (steps.conforms_preloadOver viewPath)
      exact fun _ => conforms_pure steps.toComposes _
    · intro total
      apply conforms_bind steps.toComposes (steps.conforms_report _)
      exact fun _ => conforms_pure steps.toComposes _

/-- What every step of a loader meets, every task meets that is done with it. -/
theorem Task.conforms_run {timeline : Timeline} {task : Task}
    {spec : LoadState → Option ViewFailure → LoadState → Prop}
    (steps : timeline.Steps task.loader spec) : Conforms spec (task.run timeline) := by
  cases task with
  | setup engine => exact conforms_discard steps.toComposes steps.conforms_setupOver
  | preload loader viewPath =>
      exact conforms_discard steps.toComposes (steps.conforms_preloadOver viewPath)
  | load loader seen context nesting viewPath =>
      apply conforms_bind steps.toComposes (steps.conforms_see seen)
      intro _
      exact conforms_discard steps.toComposes (steps.conforms_expandOver context nesting viewPath)

/-- What every task keeps, tasks keep that are done one after another. -/
theorem Task.related_afterAll {timeline : Timeline} {related : LoadState → LoadState → Prop}
    [IsPreorder LoadState related] (each : ∀ task, Keeps related (Task.run timeline task))
    (tasks : List Task) (state : LoadState) : related state (afterAll timeline tasks state) := by
  induction tasks generalizing state with
  | nil => exact refl_of related state
  | cons task tasks ih => exact trans_of related (each task state) (ih _)

/-! ## The bound on the nesting -/

/-- The number of expansions begun so far. -/
def LoadState.expansions (state : LoadState) : Nat :=
  state.accesses.countP fun access => access.expanded?.isSome

theorem LoadState.expansions_did (state : LoadState) (access : Access) :
    (state.did access).expansions =
      state.expansions + if access.expanded?.isSome then 1 else 0 := by
  rw [expansions, did_accesses, List.countP_append, List.countP_singleton, expansions]

theorem LoadState.expansions_begin (state : LoadState) (entry : FileEntry) :
    (state.begin entry).expansions = state.expansions + 1 :=
  state.expansions_did (.expand entry)

theorem LoadState.Precedes.expansions_le {earlier later : LoadState}
    (precedes : earlier.Precedes later) : earlier.expansions ≤ later.expansions :=
  precedes.accesses.sublist.countP_le

theorem Timeline.steps_expansions (timeline : Timeline) (loader : Loader) :
    timeline.Steps loader fun earlier _ later => earlier.expansions ≤ later.expansions where
  rests _ := Nat.le_refl _
  goesOn := Nat.le_trans
  walks purpose path state := (Loader.precedes_walk _ purpose path state).expansions_le
  fetches entry state := (loader.precedes_fetch _ entry state).expansions_le
  does state access _ _ := by
    rw [LoadState.expansions_did]
    exact Nat.le_add_right _ _
  notes _ _ _ := Nat.le_refl _

/-- Two runs with the files as they are when both begin agree if they agree with these files. -/
theorem Timeline.agreeFrom_now {α : Type} {timeline : Timeline} {admissible : LoadState → Prop}
    {related : LoadState → LoadState → Prop} {matching : α → α → Prop} {x y : FileSource → LoadM α}
    {state : LoadState} (agrees : AgreeFrom admissible related matching
      (x (timeline.files state.calls)) (y (timeline.files state.calls)) state state) :
    AgreeFrom admissible related matching (timeline.now x) (timeline.now y) state state :=
  agrees

namespace Loader

variable {loader : Loader} {timeline : Timeline} {context : Context} {bound : Nat}

/-- Fewer expansions than the bound were begun. -/
def Few (bound : Nat) (state : LoadState) : Prop :=
  state.expansions < bound

/-- The two runs are in the same state, and as many loads may still nest as expansions are left up
to the bound. -/
def Suffices (bound nesting : Nat) (first second : LoadState) : Prop :=
  first = second ∧ bound ≤ first.expansions + nesting

theorem parallel_suffices (bound nesting : Nat) : Parallel (Suffices bound nesting) where
  did access start := by
    refine ⟨congrArg (·.did access) start.1, Nat.le_trans start.2 ?_⟩
    rw [LoadState.expansions_did]
    omega
  logged entries start := ⟨congrArg (·.logged entries) start.1, start.2⟩

theorem reflects_few_of_le {earlier later : LoadState}
    (grows : earlier.expansions ≤ later.expansions) : Reflects (Few bound) earlier later :=
  Nat.lt_of_le_of_lt grows

theorem agree_suffices_of_precedes {α : Type} {x : LoadM α} {nesting : Nat}
    (grows : Keeps LoadState.Precedes x) : Agree (Few bound) (Suffices bound nesting) Eq x x := by
  apply agree_self
  intro state enough
  exact Nat.le_trans enough (Nat.add_le_add_right (grows state).expansions_le _)

/-- Runs only begin more expansions. -/
def Begins {α : Type} (x : LoadM α) : Prop :=
  Conforms (fun earlier _ later => earlier.expansions ≤ later.expansions) x

section Nested

variable {nesting : Nat} {load load' : Text → LoadM Text}
  (nested : ∀ path, Agree (Few bound) (Suffices bound nesting) Eq (load path) (load' path))
  (grows : ∀ path, Begins (load path))

include nested grows

theorem agree_now_expandEntry (entry : FileEntry) :
    Agree (Few bound) (Suffices bound (nesting + 1)) Eq
      (timeline.now fun source => loader.expandEntry source context load entry)
      (timeline.now fun source => loader.expandEntry source context load' entry) := by
  rintro state _ ⟨rfl, enough⟩
  have sameSeen : ∀ first second, Suffices bound (nesting + 1) first second →
      second.seen = first.seen := by
    rintro _ _ ⟨rfl, -⟩
    rfl
  apply Timeline.agreeFrom_now
  refine agree_expandEntry sameSeen (parallel_suffices bound _) ?_ state state ⟨rfl, enough⟩
  rintro other _ ⟨rfl, enough⟩ - allowed
  have begun : Suffices bound nesting (other.begin entry) (other.begin entry) := by
    refine ⟨rfl, ?_⟩
    rw [LoadState.expansions_begin]
    omega
  rcases agree_expandNew (agree_suffices_of_precedes (loader.precedes_fetch _ entry))
    (parallel_suffices bound nesting) nested
    (fun _ _ precedes => reflects_few_of_le precedes.expansions_le)
    (fun path state => reflects_few_of_le (grows path state)) _ _ begun allowed with
    ⟨sameResult, sameState, enough'⟩
  exact ⟨sameResult, sameState, by omega⟩

theorem agree_loadOver (viewPath : Text) :
    Agree (Few bound) (Suffices bound (nesting + 1)) Eq
      (loader.loadOver timeline context load viewPath)
      (loader.loadOver timeline context load' viewPath) := by
  have steps := timeline.steps_expansions loader
  have expands : ∀ output entry, Begins (do
      let expansion ← timeline.now fun source => loader.expandEntry source context load entry
      return output ++ expansion) := by
    intro output entry
    apply conforms_bind steps.toComposes (steps.conforms_expandEntry grows entry)
    exact fun _ => conforms_pure steps.toComposes _
  apply agree_bind
  · rintro state _ ⟨rfl, enough⟩
    apply Timeline.agreeFrom_now
    exact agree_suffices_of_precedes (precedes_walk _ _ _) state state ⟨rfl, enough⟩
  · rintro entries _ rfl
    apply agree_foldlM
    · rintro entry - output _ rfl
      apply agree_bind (agree_now_expandEntry nested grows entry)
      · rintro expansion _ rfl
        exact agree_pure rfl
      · exact fun _ => keeps_pure _
    · exact fun output entry _ state => reflects_few_of_le (expands output entry state)
    · rfl
  · intro entries state
    exact reflects_few_of_le (conforms_foldlM steps.toComposes expands entries [] state)

end Nested

/-- A run that begins few expansions never comes to loads that may not nest, so that it makes no
difference what these are left to. The induction is on the nesting; the expansion below which a load
is nested pays for each step. -/
theorem agree_expandOver (deeper : Text → LoadM Text) (nesting : Nat) (viewPath : Text) :
    Agree (Few bound) (Suffices bound nesting) Eq
      (loader.expandOver timeline context nesting viewPath)
      ((loader.loadOver timeline context)^[nesting] deeper viewPath) := by
  induction nesting generalizing viewPath with
  | zero =>
      rintro state _ ⟨-, enough⟩ few
      exact absurd few (Nat.not_lt.mpr enough)
  | succ nesting ih =>
      rw [Function.iterate_succ_apply', expandOver]
      exact agree_loadOver ih
        ((timeline.steps_expansions loader).conforms_expandOver context nesting) viewPath

theorem expandOver_eq_iterate (loader : Loader) (timeline : Timeline) (context : Context)
    (nesting : Nat) :
    loader.expandOver timeline context nesting =
      (loader.loadOver timeline context)^[nesting] fun _ => return [] := by
  induction nesting with
  | zero => rfl
  | succ nesting ih =>
      rw [Function.iterate_succ_apply', ← ih]
      rfl

section Bound

variable {nesting : Nat} {viewPath : Text} {state : LoadState}
  (few : ((loader.expandOver timeline context nesting viewPath).after state).expansions <
    state.expansions + nesting)

include few

/-- A load that begins fewer expansions than loads may nest never comes to the bound: whatever is
done instead of the loads that would be nested deeper, it comes to the same and leaves the same. -/
theorem run_expandOver_of_few (deeper : Text → LoadM Text) :
    (loader.expandOver timeline context nesting viewPath).run.run state =
      ((loader.loadOver timeline context)^[nesting] deeper viewPath).run.run state := by
  rcases agree_expandOver deeper nesting viewPath state state ⟨rfl, Nat.le_refl _⟩ few with
    ⟨sameResult, sameState, -⟩
  exact Prod.ext (matches_eq_iff.mp sameResult) sameState

/-- It is the same with every greater bound. -/
theorem run_expandOver_eq_add (extra : Nat) :
    (loader.expandOver timeline context nesting viewPath).run.run state =
      (loader.expandOver timeline context (nesting + extra) viewPath).run.run state := by
  rw [run_expandOver_of_few few (loader.expandOver timeline context extra),
    expandOver_eq_iterate _ _ _ extra, expandOver_eq_iterate _ _ _ (nesting + extra),
    Function.iterate_add_apply]

/-- It is the same without a bound, where inclusions are loaded as the view itself. -/
theorem run_expandOver_eq_of_unfolds {load : Text → LoadM Text}
    (unfolds : loader.loadOver timeline context load = load) :
    (loader.expandOver timeline context nesting viewPath).run.run state =
      (load viewPath).run.run state := by
  rw [run_expandOver_of_few few load, Function.iterate_fixed unfolds]

end Bound

end Loader

/-- A task that loads a view and begins few expansions is the same with every greater bound. -/
theorem Task.run_load_eq_add {timeline : Timeline} {loader : Loader} {seen : SeenKeys}
    {context : Context} {nesting : Nat} {viewPath : Text} {state : LoadState}
    (few : (((load loader seen context nesting viewPath).run timeline).after state).expansions <
      state.expansions + nesting) (extra : Nat) :
    ((load loader seen context nesting viewPath).run timeline).run.run state =
      ((load loader seen context (nesting + extra) viewPath).run timeline).run.run state := by
  have few' : ((loader.expandOver timeline context nesting viewPath).after
      { state with seen }).expansions < LoadState.expansions { state with seen } + nesting := by
    rw [← after_discard]
    exact few
  exact run_run_discard_congr (Loader.run_expandOver_eq_add few' extra)

end Pageweave
