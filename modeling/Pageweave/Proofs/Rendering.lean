import Mathlib
import Pageweave.Proofs.History
import Pageweave.Proofs.Overlay
import Pageweave.Proofs.Writing

/-!
# Renderings

A rendering looks up its configuration, builds an engine, fills its cache from the preload roots,
reads its data, loads its view, and prints the text or writes it to a file. This file says what the
whole comes to.

Everything up to the loading of the view leaves the disk and the output alone, so that a failure
there leaves no trace. The cache that the preload roots have filled makes no difference to the text:
it holds what the files are read with, and so the load comes to what it comes to on an engine that
has cached nothing.
-/

namespace Pageweave

open LoadM

/-- Where file versions have keys of their own, caching the preload roots makes no difference to a
load. -/
theorem Engine.loadView_after_setup (engine : Engine) {source : FileSource}
    (distinct : Set.InjOn FileEntry.key {entry | entry ∈ source.versions}) (context : Context)
    (viewPath : Text) :
    (engine.loadView source context viewPath).result ((engine.setup source).after {}) =
      (engine.loadView source context viewPath).result {} := by
  have listed : ∀ entry ∈ source.versions, entry ∈ {entry | entry ∈ source.versions} :=
    fun _ entry_mem => entry_mem
  have stable : ∀ entry ∈ source.versions,
      source.read entry.path = (fun entry => source.read entry.path) entry := fun _ _ => rfl
  have supplied : engine.loader.Supplied source {entry | entry ∈ source.versions}
      (engine.loader.Makes fun entry => source.read entry.path) :=
    Loader.supplied_of_outcome listed stable
  -- Whether the preload roots could be cached or not, the cache holds what the files are read with.
  have faithful := staysFaithful_setup distinct supplied {}
    (LoadState.isFaithful_of_honest Cache.isHonest_empty)
  have agree := engine.loader.agree_load_of_honest distinct listed stable context viewPath
    { (engine.setup source).after {} with seen := {} } {}
    ⟨rfl, faithful.cached, Cache.isHonest_empty⟩ trivial
  rw [Engine.loadView, result_bind_of_ok rfl, result_bind_of_ok rfl]
  exact matches_eq_iff.mp agree.1

namespace CommandLine

/-! ## Runs of commands -/

namespace CommandM

variable {α β : Type} {x : CommandM α} {f : α → CommandM β} {execution left : Execution}

/-- What a computation comes to that is started on a disk before anything else has been done. -/
def answer (disk : Disk) (x : CommandM α) : Except Failure α :=
  (x.run.run { disk }).1

/-- A computation comes to what it would come to at the start, and at most tells something: it
leaves everything else as it is. -/
def IsLookup (x : CommandM α) : Prop :=
  ∀ execution, ∃ told, x.run.run execution = (x.answer execution.disk, { execution with told })

theorem run_bind_of_ok {value : α} (ran : x.run.run execution = (.ok value, left)) :
    (x >>= f).run.run execution = (f value).run.run left := by
  simp only [ExceptT.run_bind, StateT.run_bind, ran]
  rfl

theorem run_bind_of_error {failure : Failure}
    (ran : x.run.run execution = (.error failure, left)) :
    (x >>= f).run.run execution = (.error failure, left) := by
  simp only [ExceptT.run_bind, StateT.run_bind, ran]
  rfl

section Lookup

variable {disk : Disk} {output : Text} {load : LoadState} {earlier : List Detail}

theorem IsLookup.run_of_ok (lookup : IsLookup x) {value : α} (answers : x.answer disk = .ok value) :
    ∃ told, (x >>= f).run.run ⟨disk, output, load, earlier⟩ =
      (f value).run.run ⟨disk, output, load, told⟩ := by
  rcases lookup ⟨disk, output, load, earlier⟩ with ⟨told, ran⟩
  rw [answers] at ran
  exact ⟨told, run_bind_of_ok ran⟩

theorem IsLookup.run_of_error (lookup : IsLookup x) {failure : Failure}
    (answers : x.answer disk = .error failure) :
    ∃ told, (x >>= f).run.run ⟨disk, output, load, earlier⟩ =
      (.error failure, ⟨disk, output, load, told⟩) := by
  rcases lookup ⟨disk, output, load, earlier⟩ with ⟨told, ran⟩
  rw [answers] at ran
  exact ⟨told, run_bind_of_error ran⟩

end Lookup

theorem run_loading (action : FileSource → LoadM α) (execution : Execution) :
    (loading action).run.run execution =
      (((action execution.disk.source).result execution.load).mapError
          fun failure => { cause := .view failure },
        { execution with load := (action execution.disk.source).after execution.load }) := by
  rw [loading, run_bind_of_ok (x := get) rfl]
  simp only [result, after]
  rcases (action execution.disk.source).run.run execution.load with ⟨outcome, load⟩
  cases outcome <;> rfl

/-- What loading comes to when nothing was loaded before, and what it leaves. -/
theorem run_loading_eq_answer (action : FileSource → LoadM α) (disk : Disk) (told : List Detail) :
    (loading action).run.run { disk, told } =
      ((loading action).answer disk, { disk, load := (action disk.source).after {}, told }) := by
  rw [answer, run_loading, run_loading]

theorem run_discard_of_ok {value : α} (ran : x.run.run execution = (.ok value, left)) :
    (discard x).run.run execution = (.ok (), left) :=
  run_bind_of_ok (f := fun _ => pure ()) ran

theorem run_discard_of_error {failure : Failure}
    (ran : x.run.run execution = (.error failure, left)) :
    (discard x).run.run execution = (.error failure, left) :=
  run_bind_of_error (f := fun _ => pure ()) ran

end CommandM

open CommandM

theorem isLookup_viewConfig (surroundings : Surroundings) (globals : GlobalOptions) :
    IsLookup (viewConfig surroundings globals) := by
  intro execution
  rw [answer, viewConfig, run_bind_of_ok (x := get) rfl, run_bind_of_ok (x := get) rfl]
  dsimp only
  cases Config.lookUp execution.disk globals.configPath surroundings.environment with
  | error failure => exact ⟨_, rfl⟩
  | ok config => exact ⟨_, rfl⟩

theorem isLookup_engineFor (config : Config) : IsLookup (engineFor config) := by
  intro execution
  rw [answer, engineFor, run_bind_of_ok (x := get) rfl, run_bind_of_ok (x := get) rfl]
  dsimp only
  cases Engine.ofConfig execution.disk.workingDirectory.path config with
  | error failure => exact ⟨_, rfl⟩
  | ok engine => exact ⟨_, rfl⟩

theorem isLookup_readData (path : Path) : IsLookup (readData path) := by
  intro execution
  rw [answer, readData, run_bind_of_ok (x := get) rfl, run_bind_of_ok (x := get) rfl]
  dsimp only
  cases execution.disk.readText path with
  | error error => exact ⟨_, rfl⟩
  | ok text =>
      dsimp only
      cases Json.read? text with
      | none => exact ⟨_, rfl⟩
      | some value => cases value <;> exact ⟨_, rfl⟩

/-- The data that a rendering is asked to use. -/
def dataFor (options : RenderOptions) : CommandM Members :=
  match options.data with
  | some path => readData path
  | none => pure []

theorem isLookup_dataFor (options : RenderOptions) : IsLookup (dataFor options) := by
  rw [dataFor]
  cases options.data with
  | some path => exact isLookup_readData path
  | none => exact fun _ => ⟨_, rfl⟩

/-- The data of a rendering are in order. -/
theorem isOrdered_of_dataFor {options : RenderOptions} {disk : Disk} {data : Members}
    (answers : (dataFor options).answer disk = .ok data) : data.IsOrdered := by
  rw [dataFor] at answers
  split at answers
  · next path _ =>
      rw [answer, readData, run_bind_of_ok (x := get) rfl] at answers
      split at answers
      · cases answers
      · split at answers
        · cases answers
        · next members read =>
            cases answers
            exact Json.isOrdered_of_read? read
        · cases answers
  · cases answers
    exact Members.isOrdered_nil

/-! ## The stages of a rendering -/

section Stages

variable (surroundings : Surroundings) (globals : GlobalOptions) (options : RenderOptions)
  (disk : Disk)

/-- What a rendering has come to when it loads its view: an engine with the configuration, a cache
filled from the preload roots, and the data. -/
structure Prepares (engine : Engine) (data : Members) : Prop where
  configured : (viewConfig surroundings globals).answer disk = .ok engine.config
  built : (engineFor engine.config).answer disk = .ok engine
  warmed : ∃ files, (CommandM.loading engine.setup).answer disk = .ok files
  supplied : (dataFor options).answer disk = .ok data

/-- A stage of a rendering before its output fails. -/
inductive Fails : Prop where
  /-- There is no configuration. -/
  | configuration {failure : Failure} :
      (viewConfig surroundings globals).answer disk = .error failure → Fails
  /-- There is something wrong with the configuration. -/
  | engine {config : Config} {failure : Failure} :
      (viewConfig surroundings globals).answer disk = .ok config →
      (engineFor config).answer disk = .error failure → Fails
  /-- The files of the preload roots cannot be cached. -/
  | setup {config : Config} {engine : Engine} {failure : Failure} :
      (viewConfig surroundings globals).answer disk = .ok config →
      (engineFor config).answer disk = .ok engine →
      (CommandM.loading engine.setup).answer disk = .error failure → Fails
  /-- There are no data. -/
  | data {failure : Failure} : (dataFor options).answer disk = .error failure → Fails
  /-- The view cannot be loaded. -/
  | load {engine : Engine} {data : Members} {failure : ViewFailure} :
      Prepares surroundings globals options disk engine data →
      (engine.loadView disk.source (contextOf data options.assignments) options.view).result
        ((engine.setup disk.source).after {}) = .error failure → Fails

end Stages

/-- What is done with the text of a view. -/
def deliver (options : RenderOptions) (text : Text) : CommandM Unit :=
  match options.output with
  | some path => writeOutput path text
  | none => CommandM.printText text

/-- What a rendering comes to when its view has been loaded, or could not be. -/
inductive ComesTo (disk : Disk) : Option Path → Except ViewFailure Text →
    Option Failure × Execution → Prop where
  /-- A view that cannot be loaded leaves no trace. -/
  | failed {output : Option Path} {failure : ViewFailure} {execution : Execution} :
      execution.output = [] → execution.disk = disk →
      ComesTo disk output (.error failure) (some { cause := .view failure }, execution)
  /-- A text is printed as it is. -/
  | printed {text : Text} {execution : Execution} :
      execution.output = text → execution.disk = disk →
      ComesTo disk none (.ok text) (none, execution)
  /-- A text is written to a file as it is. -/
  | written {path : Path} {text : Text} {execution : Execution} :
      execution.output = [] → disk.write path (Utf8.encode text) 0 = .ok execution.disk →
      execution.disk.read path = .ok (Utf8.encode text) ∨
        disk.LeadsToDevice path ∧ execution.disk = disk →
      ComesTo disk (some path) (.ok text) (none, execution)
  /-- A text cannot be written to the file. -/
  | refused {path : Path} {text : Text} {error : SystemError} {execution : Execution} :
      execution.output = [] → execution.disk = disk →
      disk.write path (Utf8.encode text) 0 = .error error →
      ComesTo disk (some path) (.ok text)
        (some (.within ("Failed to write output to ".toList ++ path.text)
          { cause := .system error }), execution)

section Runs

variable {surroundings : Surroundings} {globals : GlobalOptions} {options : RenderOptions}
  {disk : Disk} {engine : Engine} {data : Members}

/-- An engine has the configuration that it is made with, and the loader made from it. -/
theorem parts_of_engineFor {config : Config}
    (built : (engineFor config).answer disk = .ok engine) :
    engine.config = config ∧
      Loader.ofConfig disk.workingDirectory.path config = .ok engine.loader := by
  rw [answer, engineFor, run_bind_of_ok (x := get) rfl, Engine.ofConfig] at built
  generalize Loader.ofConfig disk.workingDirectory.path config = made at built ⊢
  cases made with
  | error failure => cases built
  | ok loader =>
      cases built
      exact ⟨rfl, rfl⟩

theorem render_eq (surroundings : Surroundings) (globals : GlobalOptions)
    (options : RenderOptions) :
    render surroundings globals options = (do
      let config ← viewConfig surroundings globals
      let engine ← engineFor config
      discard (CommandM.loading engine.setup)
      let data ← dataFor options
      let text ← CommandM.loading fun source =>
        engine.loadView source (contextOf data options.assignments) options.view
      deliver options text) := by
  rcases options with ⟨view, data, assignments, output⟩
  cases data <;> rfl

/-- Either a stage before the loading of the view fails and leaves no trace, or none does. -/
theorem failed_or_prepares (surroundings : Surroundings) (globals : GlobalOptions)
    (options : RenderOptions) (disk : Disk) :
    (∃ failure left, (render surroundings globals options).run.run { disk } =
        (.error failure, left) ∧ left.output = [] ∧ left.disk = disk) ∨
      ∃ engine data, Prepares surroundings globals options disk engine data := by
  rw [render_eq]
  cases configured : (viewConfig surroundings globals).answer disk with
  | error failure =>
      rcases (isLookup_viewConfig _ _).run_of_error configured with ⟨told, ran⟩
      exact Or.inl ⟨_, _, ran, rfl, rfl⟩
  | ok config =>
      rcases (isLookup_viewConfig _ _).run_of_ok configured with ⟨told, ran⟩
      rw [ran]
      cases built : (engineFor config).answer disk with
      | error failure =>
          rcases (isLookup_engineFor _).run_of_error built with ⟨told, ran⟩
          exact Or.inl ⟨_, _, ran, rfl, rfl⟩
      | ok engine =>
          rcases (isLookup_engineFor _).run_of_ok built with ⟨told, ran⟩
          rw [ran]
          have filled := run_loading_eq_answer engine.setup disk told
          cases warmed : (CommandM.loading engine.setup).answer disk with
          | error failure =>
              rw [warmed] at filled
              exact Or.inl ⟨_, _, run_bind_of_error (run_discard_of_error filled), rfl, rfl⟩
          | ok files =>
              rw [warmed] at filled
              rw [run_bind_of_ok (run_discard_of_ok filled)]
              cases supplied : (dataFor options).answer disk with
              | error failure =>
                  rcases (isLookup_dataFor _).run_of_error supplied with ⟨told, ran⟩
                  exact Or.inl ⟨_, _, ran, rfl, rfl⟩
              | ok data =>
                  have config_eq := (parts_of_engineFor built).1
                  exact Or.inr ⟨engine, data, config_eq ▸ configured, config_eq ▸ built,
                    ⟨files, warmed⟩, supplied⟩

/-- A rendering that has come so far loads its view with what it has cached. -/
theorem run_of_prepares
    (prepares : Prepares surroundings globals options disk engine data) :
    ∃ told, (render surroundings globals options).run.run { disk } =
      (CommandM.loading (fun source =>
          engine.loadView source (contextOf data options.assignments) options.view) >>=
        deliver options).run.run { disk, load := (engine.setup disk.source).after {}, told } := by
  rw [render_eq]
  rcases (isLookup_viewConfig _ _).run_of_ok prepares.configured with ⟨told, configured⟩
  rw [configured]
  rcases (isLookup_engineFor _).run_of_ok prepares.built with ⟨told, built⟩
  rw [built]
  rcases prepares.warmed with ⟨files, warmed⟩
  have filled := run_loading_eq_answer engine.setup disk told
  rw [warmed] at filled
  rw [run_bind_of_ok (run_discard_of_ok filled)]
  exact (isLookup_dataFor _).run_of_ok prepares.supplied

/-- The outcome of a run. -/
def ending : Except Failure Unit × Execution → Option Failure × Execution
  | (.ok (), execution) => (none, execution)
  | (.error failure, execution) => (some failure, execution)

theorem run_render_eq (surroundings : Surroundings) (globals : GlobalOptions)
    (options : RenderOptions) (disk : Disk) :
    run surroundings disk ⟨globals, .render options⟩ =
      ending ((render surroundings globals options).run.run { disk }) := by
  simp only [run, execute]
  rcases (render surroundings globals options).run.run { disk } with ⟨outcome, execution⟩
  cases outcome <;> rfl

/-- A text is delivered as it is, or the file it is to be written to is refused. -/
theorem comesTo_deliver (options : RenderOptions) (text : Text) (disk : Disk) (load : LoadState)
    (told : List Detail) :
    ComesTo disk options.output (.ok text)
      (ending ((deliver options text).run.run ⟨disk, [], load, told⟩)) := by
  rw [deliver]
  cases options.output with
  | none => exact .printed (List.nil_append text) rfl
  | some path =>
      dsimp only
      rw [writeOutput, run_bind_of_ok (x := get) rfl]
      cases write : disk.write path (Utf8.encode text) 0 with
      | error error => exact .refused rfl rfl write
      | ok written => exact .written rfl write (Disk.read_of_write write)

/-- What a rendering comes to that has come so far: the text that its view is loaded with, on the
engine whose cache has been filled, is delivered. -/
theorem comesTo_of_prepares
    (prepares : Prepares surroundings globals options disk engine data) :
    ComesTo disk options.output
      ((engine.loadView disk.source (contextOf data options.assignments) options.view).result
        ((engine.setup disk.source).after {}))
      (run surroundings disk ⟨globals, .render options⟩) := by
  rcases run_of_prepares prepares with ⟨told, ran⟩
  rw [run_render_eq, ran]
  have loaded := run_loading
    (fun source => engine.loadView source (contextOf data options.assignments) options.view)
    { disk, load := (engine.setup disk.source).after {}, told }
  dsimp only at loaded
  cases outcome : (engine.loadView disk.source (contextOf data options.assignments)
      options.view).result ((engine.setup disk.source).after {}) with
  | error failure =>
      rw [outcome] at loaded
      rw [run_bind_of_error loaded]
      exact .failed rfl rfl
  | ok text =>
      rw [outcome] at loaded
      rw [run_bind_of_ok loaded]
      exact comesTo_deliver options text disk _ told

/-- Whichever stage fails, nothing is printed and nothing is written. -/
theorem untouched_of_fails (fails : Fails surroundings globals options disk) :
    ∃ failure left, run surroundings disk ⟨globals, .render options⟩ = (some failure, left) ∧
      left.output = [] ∧ left.disk = disk := by
  rcases failed_or_prepares surroundings globals options disk with
    ⟨failure, left, ran, quiet, same⟩ | ⟨engine, data, prepares⟩
  · refine ⟨failure, left, ?_, quiet, same⟩
    rw [run_render_eq, ran]
    rfl
  · cases fails with
    | configuration fails => cases fails.symm.trans prepares.configured
    | engine configured fails =>
        cases configured.symm.trans prepares.configured
        cases fails.symm.trans prepares.built
    | setup configured built fails =>
        cases configured.symm.trans prepares.configured
        cases built.symm.trans prepares.built
        rcases prepares.warmed with ⟨files, warmed⟩
        cases fails.symm.trans warmed
    | data fails => cases fails.symm.trans prepares.supplied
    | load prepares' fails =>
        have comesTo := comesTo_of_prepares prepares'
        rw [fails] at comesTo
        generalize run surroundings disk ⟨globals, .render options⟩ = outcome at comesTo ⊢
        generalize options.output = output at comesTo
        cases comesTo with
        | failed quiet same => exact ⟨_, _, rfl, quiet, same⟩

/-- The preload roots have no part in how an engine loads views. -/
theorem exists_fresh (built : (engineFor engine.config).answer disk = .ok engine) :
    ∃ fresh, Engine.ofConfig disk.workingDirectory.path { engine.config with preloads := [] } =
        .ok fresh ∧ fresh.loader = engine.loader := by
  refine ⟨⟨{ engine.config with preloads := [] }, engine.loader⟩, ?_, rfl⟩
  have same : Loader.ofConfig disk.workingDirectory.path { engine.config with preloads := [] } =
      Loader.ofConfig disk.workingDirectory.path engine.config := rfl
  rw [Engine.ofConfig, same, (parts_of_engineFor built).2]
  rfl

end Runs

/-- A rendering of which a stage before the output fails prints nothing and leaves the disk as it
is. Where file versions have keys of their own, any other rendering comes to what its view is loaded
with on an engine without preload roots that has cached nothing, from the one context that has
the variables laid over the data. -/
theorem run_render (surroundings : Surroundings) (globals : GlobalOptions)
    (options : RenderOptions) (disk : Disk) :
    (Fails surroundings globals options disk →
      ∃ failure left, run surroundings disk ⟨globals, .render options⟩ = (some failure, left) ∧
        left.output = [] ∧ left.disk = disk) ∧
    (Set.InjOn FileEntry.key {entry | entry ∈ disk.source.versions} →
      ∀ engine data, Prepares surroundings globals options disk engine data →
        ∃ fresh, Engine.ofConfig disk.workingDirectory.path
            { engine.config with preloads := [] } = .ok fresh ∧
          (∃! context, IsOverlay data options.assignments context) ∧
          ∀ context, IsOverlay data options.assignments context →
            ComesTo disk options.output
              ((fresh.loadView disk.source context options.view).result {})
              (run surroundings disk ⟨globals, .render options⟩)) := by
  refine ⟨untouched_of_fails, ?_⟩
  intro distinct engine data prepares
  rcases exists_fresh prepares.built with ⟨fresh, fresh_eq, loader_eq⟩
  have overlay := isOverlay_contextOf (isOrdered_of_dataFor prepares.supplied) options.assignments
  refine ⟨fresh, fresh_eq, ⟨_, overlay, fun other overlay' => overlay'.unique overlay⟩, ?_⟩
  intro context overlay'
  cases overlay'.unique overlay
  have comesTo := comesTo_of_prepares prepares
  rw [engine.loadView_after_setup distinct] at comesTo
  rwa [Engine.loadView, loader_eq]

namespace Rendering

/-- A view that greets someone by name, which is cached at the start, and data with a name. -/
def disk : Disk where
  root := .directory [
    ("data".toList, .file (Utf8.encode "\x7b\"name\":\"Ada\"\x7d".toList) 1000),
    ("tplview.toml".toList, .file (Utf8.encode "[view]\npreloads=[\"view\"]".toList) 2000),
    ("view".toList, .file (Utf8.encode "Hello (:= name:)".toList) 3000)]
  workingDirectory := []

/-- The view is rendered with another name. -/
def options : RenderOptions where
  view := "view".toList
  data := some (Path.ofString "data")
  assignments := [⟨"name".toList, .string "Grace".toList⟩]

/-- The engine that the configuration on the disk makes. -/
def engine : Engine where
  config := { preloads := ["view".toList] }
  loader := {
    root := ⟨Path.ofString "/"⟩
    minify := true
    contextAnchor := "</head>".toList
    clientVariable := "viewData".toList
    maxSubstitutions := 4096 }

/-- The data on the disk. -/
def data : Members := [("name".toList, .string "Ada".toList)]

/-- The data with the other name laid over it. -/
def context : Context := ⟨[("name".toList, .string "Grace".toList)]⟩

theorem lookUp_eq : Config.lookUp disk none none = .ok engine.config := by
  have present : disk.isPresent Config.standardFile = true := by cbv
  have read : disk.readText Config.standardFile =
      .ok "[view]\npreloads=[\"view\"]".toList := by cbv
  have parsed : Config.ofToml? "[view]\npreloads=[\"view\"]".toList = some engine.config := by
    decide +kernel
  have sound : engine.config.fault? = none := by decide
  simp only [Config.lookUp, Config.file?, Option.filter_none, present, if_true, Config.ofFile,
    read, Config.read, parsed, sound]
  rfl

theorem prepares : Prepares {} {} options disk engine data where
  configured := by
    rw [answer, viewConfig, run_bind_of_ok (x := get) rfl]
    have found : Config.lookUp disk ({} : GlobalOptions).configPath
        ({} : Surroundings).environment = .ok engine.config := lookUp_eq
    simp only [found]
    rfl
  built := by cbv
  warmed := ⟨1, by cbv⟩
  supplied := by cbv

theorem distinct : Set.InjOn FileEntry.key {entry | entry ∈ disk.source.versions} := by
  have versions_eq : disk.source.versions = [⟨Path.ofString "/data", 1⟩,
      ⟨Path.ofString "/tplview.toml", 2⟩, ⟨Path.ofString "/view", 3⟩] := by cbv
  have nodup : (disk.source.versions.map FileEntry.key).Nodup := by
    rw [versions_eq]
    decide
  intro first first_mem second second_mem same
  exact List.inj_on_of_nodup_map nodup first_mem second_mem same

theorem isOverlay : IsOverlay data options.assignments context :=
  isOverlay_contextOf (List.pairwise_singleton _ _) options.assignments

/-- A view with one file in which nothing is included comes to what the scan of the file gives. -/
theorem loadView_of_plain {engine : Engine} {source : FileSource} {context : Context}
    {viewPath content : Text} {entry : FileEntry} {bytes : Bytes}
    (walked : source.walk (engine.loader.root.resolve viewPath) = .ok [entry])
    (read : source.read entry.path = .ok bytes)
    (processed : Content.process engine.loader.minify entry.path bytes = (content, []))
    (plain : (Scan.run context engine.loader.maxSubstitutions
      (engine.loader.embed context content)).inclusions = []) :
    (engine.loadView source context viewPath).result {} =
      .ok (Scan.run context engine.loader.maxSubstitutions
        (engine.loader.embed context content)).text := by
  have expanded (load : Text → LoadM Text) :
      (engine.loader.expandEntry source context load entry).result
          (engine.loader.afterListing source viewPath {}) =
        .ok (Scan.run context engine.loader.maxSubstitutions
          (engine.loader.embed context content)).text := by
    rw [result, Loader.expandEntry_of_read content (List.not_mem_nil) rfl read processed, plain]
    rfl
  rw [Engine.loadView, result_bind_of_ok rfl, Loader.load, result,
    Loader.expandWithin_of_walked walked, Loader.expandEntries_singleton]
  exact expanded _

theorem loadView_eq : (engine.loadView disk.source context "view".toList).result {} =
    .ok "Hello Grace".toList := by
  have walked : disk.source.walk (engine.loader.root.resolve "view".toList) =
      .ok [⟨Path.ofString "/view", 3⟩] := by cbv
  have read : disk.source.read (Path.ofString "/view") =
      .ok (Utf8.encode "Hello (:= name:)".toList) := by cbv
  have processed : Content.process engine.loader.minify (Path.ofString "/view")
      (Utf8.encode "Hello (:= name:)".toList) = ("Hello (:= name:)".toList, []) := by cbv
  have embedded : engine.loader.embed context "Hello (:= name:)".toList =
      "Hello (:= name:)".toList := Snapshot.embed_of_none (by cbv) (by decide +kernel)
  have scanned : Scan.run context engine.loader.maxSubstitutions "Hello (:= name:)".toList =
      ⟨[⟨"Hello ".toList, "(:= name:)".toList,
        .substituted "name".toList "Grace".toList none⟩], "Grace".toList⟩ := by cbv
  have plain : (Scan.run context engine.loader.maxSubstitutions
      (engine.loader.embed context "Hello (:= name:)".toList)).inclusions = [] := by
    rw [embedded, scanned]
    rfl
  rw [loadView_of_plain walked read processed plain, embedded, scanned]
  rfl

end Rendering

/-- The view on the disk, rendered with another name, prints a greeting of that name; rendered with
data from a file that is not there, it prints nothing. -/
theorem run_render_greeting :
    Set.InjOn FileEntry.key {entry | entry ∈ Rendering.disk.source.versions} ∧
    Prepares {} {} Rendering.options Rendering.disk Rendering.engine Rendering.data ∧
    IsOverlay Rendering.data Rendering.options.assignments Rendering.context ∧
    (∃ execution, run {} Rendering.disk ⟨{}, .render Rendering.options⟩ = (none, execution) ∧
      execution.output = "Hello Grace".toList ∧ execution.disk = Rendering.disk) ∧
    Fails {} {} { Rendering.options with data := some (Path.ofString "nowhere") } Rendering.disk ∧
    ∃ failure left, run {} Rendering.disk
        ⟨{}, .render { Rendering.options with data := some (Path.ofString "nowhere") }⟩ =
          (some failure, left) ∧
      left.output = [] ∧ left.disk = Rendering.disk := by
  have missing : (dataFor { Rendering.options with data := some (Path.ofString "nowhere") }).answer
      Rendering.disk = .error (.within "Failed to read view data from nowhere".toList
        { cause := .system .notFound }) := by cbv
  refine ⟨Rendering.distinct, Rendering.prepares, Rendering.isOverlay, ?_, .data missing,
    (run_render {} {} _ Rendering.disk).1 (.data missing)⟩
  rcases (run_render {} {} Rendering.options Rendering.disk).2 Rendering.distinct
    Rendering.engine Rendering.data Rendering.prepares with ⟨fresh, fresh_eq, -, comesTo⟩
  have loaded : (fresh.loadView Rendering.disk.source Rendering.context "view".toList).result {} =
      .ok "Hello Grace".toList := by
    have made : Engine.ofConfig Rendering.disk.workingDirectory.path
        { Rendering.engine.config with preloads := [] } = .ok ⟨{}, Rendering.engine.loader⟩ := by
      cbv
    cases fresh_eq.symm.trans made
    exact Rendering.loadView_eq
  have printed : ComesTo Rendering.disk none (.ok "Hello Grace".toList)
      (run {} Rendering.disk ⟨{}, .render Rendering.options⟩) :=
    loaded ▸ comesTo Rendering.context Rendering.isOverlay
  generalize run {} Rendering.disk ⟨{}, .render Rendering.options⟩ = outcome at printed ⊢
  cases printed with
  | printed output same => exact ⟨_, rfl, output, same⟩

end CommandLine

end Pageweave
