import Pageweave.Config.Basic
import Pageweave.Content
import Pageweave.Directive.Scan
import Pageweave.Load.Source
import Pageweave.Path.Root
import Pageweave.Snapshot

/-!
# Loading views

A load lists the files below a view path and puts their expansions together in that order. A file
version that was expanded before in the same chain of includes contributes nothing. Any other one
is expanded: its processed content comes from the cache, or is read, processed and cached; the data
snapshot is embedded; the directives are scanned; and each inclusion met is loaded and put in place
of its tag wherever the tag stands. The first failure ends the load.

Inclusions nest. A nested load begins below a file version that was not seen before, so the nesting
is at most one more than the number of versions; `expandWithin` takes a bound on the nesting and
`load` supplies that number.
-/

namespace Pageweave

/-- The settings that loading depends on. -/
structure Loader where
  /-- The directory that view paths are relative to. -/
  root : ViewRoot
  /-- Whether scripts are minified. -/
  minify : Bool
  /-- The text before which the data snapshot is inserted. -/
  contextAnchor : Text
  /-- The global name that the data snapshot is assigned to. -/
  clientVariable : Text
  /-- The greatest number of substitutions in one scan. -/
  maxSubstitutions : Nat
deriving DecidableEq, Repr

/-- The loader with the settings of a configuration, if there is nothing wrong with them. -/
def Loader.ofConfig (workingDirectory : Path) (config : Config) : Except ViewFailure Loader :=
  match config.fault? with
  | some fault => .error (.config fault)
  | none =>
      .ok {
        root := ViewRoot.ofPath workingDirectory config.root
        minify := config.minify
        contextAnchor := config.contextAnchor
        clientVariable := config.clientVariable
        maxSubstitutions := config.maxSubstitutions }

/-- Something that a load does with files. -/
inductive Access where
  /-- The source was asked for the files at a path. -/
  | walk (path : Path)
  /-- A file version was passed over, since its key had been seen. -/
  | skip (entry : FileEntry)
  /-- The expansion of a file version was begun. -/
  | expand (entry : FileEntry)
  /-- The processed content of a file version was asked for. -/
  | fetch (entry : FileEntry)
  /-- The source was asked for the content of a file. -/
  | read (path : Path)
  /-- The processed content of a file version was taken to be scanned. -/
  | scan (entry : FileEntry) (content : Text)
deriving DecidableEq, Repr

/-- The path that was read, if a file was. -/
def Access.readPath? : Access → Option Path
  | read path => some path
  | walk _ | skip _ | expand _ | fetch _ | scan _ _ => none

/-- What a load works on and leaves behind, whether it succeeds or not. -/
structure LoadState where
  /-- The processed contents. -/
  cache : Cache := {}
  /-- The keys of the versions expanded so far in the chain of includes. -/
  seen : SeenKeys := {}
  /-- What was done with files, in its order. -/
  accesses : List Access := []
  /-- The notices and details, in their order. -/
  log : List LogEntry := []
deriving DecidableEq, Repr

/-- The notices that were given, in their order. -/
def LoadState.notices (state : LoadState) : List Notice :=
  state.log.filterMap LogEntry.notice?

/-- Loading: a state is changed, and a result or a failure comes out. -/
abbrev LoadM := ExceptT ViewFailure (StateM LoadState)

namespace LoadM

/-- Adds entries to the log. -/
def log (entries : List LogEntry) : LoadM Unit :=
  modify fun state => { state with log := state.log ++ entries }

/-- Gives notices. -/
def report (notices : List Notice) : LoadM Unit :=
  log (notices.map .notice)

/-- Tells details. -/
def tell (details : List Detail) : LoadM Unit :=
  log (details.map .detail)

/-- Records what is done with a file. -/
def record (access : Access) : LoadM Unit :=
  modify fun state => { state with accesses := state.accesses ++ [access] }

/-- Lists the files below a path; what this is for is told before. -/
def walk (source : FileSource) (purpose : Detail) (path : Path) : LoadM (List FileEntry) := do
  tell [purpose]
  record (.walk path)
  tell (source.listed path)
  match source.walk path with
  | .ok entries => return entries
  | .error failure => throw failure

/-- Reads a file. -/
def read (source : FileSource) (path : Path) : LoadM Bytes := do
  record (.read path)
  match source.read path with
  | .ok bytes => return bytes
  | .error failure => throw (.file failure)

/-- Asks the cache for the content under a key. -/
def ask (key : Key) : LoadM (Option Text) :=
  modifyGet fun state =>
    let (content, cache) := state.cache.ask key
    (content, { state with cache })

/-- Caches a content under a key. -/
def store (key : Key) (content : Text) : LoadM Unit :=
  modify fun state => { state with cache := state.cache.insert key content }

/-- Adds a key to the seen ones, and says whether it is new. -/
def markSeen (key : Key) : LoadM Bool :=
  modifyGet fun state =>
    (!state.seen.contains key, { state with seen := state.seen.insert key })

end LoadM

namespace Loader

/-- The processed content of a file version, from the cache or else from the source. -/
def fetch (loader : Loader) (source : FileSource) (entry : FileEntry) : LoadM Text := do
  LoadM.record (.fetch entry)
  match ← LoadM.ask entry.key with
  | some content =>
      LoadM.tell [.found entry.key]
      return content
  | none =>
      let bytes ← LoadM.read source entry.path
      let (content, notices) := Content.process loader.minify entry.path bytes
      LoadM.report notices
      LoadM.tell [.stored entry.key]
      LoadM.store entry.key content
      return content

/-- The content of a file with the data snapshot in it. -/
def embed (loader : Loader) (context : Context) (content : Text) : Text :=
  Snapshot.embed loader.contextAnchor loader.clientVariable context content

/-- The text with the expansion of each inclusion in place of its tag, wherever the tag stands.
The inclusions are loaded in their order. -/
def splice (load : Text → LoadM Text) (text : Text) (inclusions : List (Text × Text)) :
    LoadM Text :=
  inclusions.foldlM (fun text (tag, path) => do
    let included ← load path
    return Text.replaceAll tag included text) text

/-- The expansion of a file version that was not seen before; `load` is used for its inclusions. -/
def expandNew (loader : Loader) (source : FileSource) (context : Context)
    (load : Text → LoadM Text) (entry : FileEntry) : LoadM Text := do
  let content ← loader.fetch source entry
  LoadM.record (.scan entry content)
  let scan := Scan.run context loader.maxSubstitutions (loader.embed context content)
  LoadM.report (scan.notices loader.maxSubstitutions)
  splice load scan.text scan.inclusions

/-- The expansion of a file version, which is empty if its key was seen before. -/
def expandEntry (loader : Loader) (source : FileSource) (context : Context)
    (load : Text → LoadM Text) (entry : FileEntry) : LoadM Text := do
  if ← LoadM.markSeen entry.key then
    LoadM.record (.expand entry)
    loader.expandNew source context load entry
  else
    LoadM.record (.skip entry)
    LoadM.tell [.passedOver entry.key]
    return []

/-- The expansions of file versions one after the other. -/
def expandEntries (loader : Loader) (source : FileSource) (context : Context)
    (load : Text → LoadM Text) (entries : List FileEntry) : LoadM Text :=
  entries.foldlM (fun output entry => do
    let expansion ← loader.expandEntry source context load entry
    return output ++ expansion) []

/-- The expansion of the view at a path, where at most `nesting` loads may be nested. -/
def expandWithin (loader : Loader) (source : FileSource) (context : Context) :
    (nesting : Nat) → (viewPath : Text) → LoadM Text
  | 0, _ => return []
  | nesting + 1, viewPath => do
      let path := loader.root.resolve viewPath
      let entries ← LoadM.walk source (.loading path) path
      loader.expandEntries source context (loader.expandWithin source context nesting) entries

/-- The expansion of the view at a path. -/
def load (loader : Loader) (source : FileSource) (context : Context) (viewPath : Text) :
    LoadM Text :=
  loader.expandWithin source context (source.versions.length + 1) viewPath

/-- Caches the processed contents of the files at a view path, without expanding them, and counts
the files. -/
def preload (loader : Loader) (source : FileSource) (viewPath : Text) : LoadM Nat := do
  let path := loader.root.resolve viewPath
  let entries ← LoadM.walk source (.preloading path) path
  entries.forM fun entry => discard (loader.fetch source entry)
  return entries.length

end Loader

end Pageweave
