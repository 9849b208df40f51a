import Pageweave.Engine
import Pageweave.Files.Store

/-!
# Sessions

A session keeps several engines and views over one store of files. Engines may share a cache; each
has a reader that remembers which files were read through it, and a clone of an engine shares both.
Besides, a session has one loader of its own, which works on the cache of the first engine and
remembers across loads which versions it has expanded.

Caches and readers are kept by number, so that every engine and view that uses one sees the same
state of it.
-/

namespace Pageweave

/-- An engine in use: with the numbers of its cache and of its reader. -/
structure Handle where
  /-- The engine. -/
  engine : Engine
  /-- The number of the cache it works on. -/
  cache : Nat
  /-- The number of the reader it reads files with. -/
  reader : Nat

/-- A view of an engine. -/
structure View where
  /-- The engine the view was made from. -/
  handle : Handle
  /-- The data of the view. -/
  context : Context := {}

/-- What an operation came to, with the notices it gave. -/
structure Outcome (α : Type) where
  /-- The result or the failure. -/
  result : Except ViewFailure α
  /-- The notices in their order. -/
  notices : List Notice := []

/-- Engines and views over one store of files. -/
structure Session where
  /-- The files. -/
  store : Store
  /-- The directory that relative view roots start from. -/
  workingDirectory : Path
  /-- The caches, by number. -/
  caches : List Cache
  /-- The files read through each reader, by number. -/
  readers : List (List Path)
  /-- The engines with their names. -/
  engines : List (Text × Handle)
  /-- The views with their names. -/
  views : List (Text × View)
  /-- The engine whose loader is the session's own. -/
  own : Handle
  /-- The versions that the session's own loader has expanded. -/
  seen : SeenKeys := {}

namespace Session

/-- The session over a store with a first engine and a view of it under the given names. -/
def start (store : Store) (workingDirectory : Path) (config : Config)
    (engineName viewName : Text) : Except ViewFailure Session := do
  let engine ← Engine.ofConfig workingDirectory config
  let handle : Handle := ⟨engine, 0, 0⟩
  return {
    store
    workingDirectory
    caches := [{}]
    readers := [[], []]
    engines := [(engineName, handle)]
    views := [(viewName, { handle })]
    own := { handle with reader := 1 } }

/-- The engine under a name. -/
def engine? (session : Session) (name : Text) : Option Handle :=
  session.engines.lookup name

/-- The view under a name. -/
def view? (session : Session) (name : Text) : Option View :=
  session.views.lookup name

/-- The state of the cache that an engine works on. -/
def cacheOf (session : Session) (handle : Handle) : Cache :=
  session.caches.getD handle.cache {}

/-- The session with an engine under a name. -/
def setEngine (session : Session) (name : Text) (handle : Handle) : Session :=
  { session with engines := (name, handle) :: session.engines }

/-- The session with a view under a name. -/
def setView (session : Session) (name : Text) (view : View) : Session :=
  { session with views := (name, view) :: session.views }

/-- The session with a new engine under a name. The engine has a reader of its own, and shares the
cache of another one or has an empty cache of its own. -/
def openEngine (session : Session) (name : Text) (config : Config) (shared : Option Handle) :
    Except ViewFailure Session := do
  let engine ← Engine.ofConfig session.workingDirectory config
  let reader := session.readers.length
  let session := { session with readers := session.readers ++ [[]] }
  match shared with
  | some other => return session.setEngine name ⟨engine, other.cache, reader⟩
  | none =>
      let cache := session.caches.length
      let session := { session with caches := session.caches ++ [({} : Cache)] }
      return session.setEngine name ⟨engine, cache, reader⟩

/-- Runs a load with the cache and the reader of an engine, going on with the given seen keys. -/
def run {α : Type} (session : Session) (handle : Handle) (seen : SeenKeys)
    (action : FileSource → LoadM α) : Outcome α × SeenKeys × Session :=
  let before : LoadState := { cache := session.cacheOf handle, seen }
  let (result, after) := (action session.store.source).run.run before
  (⟨result, after.notices⟩, after.seen,
    { session with
      caches := session.caches.set handle.cache after.cache
      readers := session.readers.modify handle.reader
        (· ++ after.accesses.filterMap Access.readPath?) })

/-- Caches the files of the preload roots of an engine. -/
def setup (session : Session) (handle : Handle) : Outcome Nat × Session :=
  let (outcome, _, session) := session.run handle {} handle.engine.setup
  (outcome, session)

/-- Loads a view path with the data of a view. -/
def load (session : Session) (view : View) (viewPath : Text) : Outcome Text × Session :=
  let (outcome, _, session) := session.run view.handle {} fun source =>
    view.handle.engine.loadView source view.context viewPath
  (outcome, session)

/-- Loads a view path with the session's own loader, which goes on with what it has seen. -/
def loadOn (session : Session) (context : Context) (viewPath : Text) : Outcome Text × Session :=
  let (outcome, seen, session) := session.run session.own session.seen fun source =>
    session.own.engine.loader.load source context viewPath
  (outcome, { session with seen })

/-- Caches the files at a view path with the session's own loader. -/
def preload (session : Session) (viewPath : Text) : Outcome Nat × Session :=
  let (outcome, _, session) := session.run session.own {} fun source =>
    session.own.engine.loader.preload source viewPath
  (outcome, session)

/-- The file versions at a view path. -/
def list (session : Session) (viewPath : Text) : Except ViewFailure (List FileEntry) :=
  session.store.source.walk (session.own.engine.loader.root.resolve viewPath)

/-- Asks the cache of an engine for the content of a file version. -/
def ask (session : Session) (handle : Handle) (path : Path) (modified : Nat) :
    Option Text × Session :=
  let entry : FileEntry := ⟨session.store.base.join path, modified⟩
  let (content, cache) := (session.cacheOf handle).ask entry.key
  (content, { session with caches := session.caches.set handle.cache cache })

/-- How often each file was read through the reader of an engine, in the order of the paths. -/
def readCounts (session : Session) (handle : Handle) : List (Path × Nat) :=
  let reads := session.readers.getD handle.reader []
  let paths := reads.eraseDups.mergeSort fun first second => !second.precedes first
  paths.map fun path => (path, reads.count path)

end Session

end Pageweave
