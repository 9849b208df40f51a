import Pageweave.Load.Basic

/-!
# Engines and views

An engine is a configuration with the loader made from it. Its operations work on a cache that the
caller keeps, so that engines can share one. A view is a context that is filled bit by bit and then
loaded with.
-/

namespace Pageweave

/-- A configuration with the loader made from it. -/
structure Engine where
  /-- The options as they were given. -/
  config : Config
  /-- The loader with these options. -/
  loader : Loader
deriving DecidableEq, Repr

namespace Engine

/-- The engine with a configuration, if there is nothing wrong with it. -/
def ofConfig (workingDirectory : Path) (config : Config) : Except ViewFailure Engine :=
  (Loader.ofConfig workingDirectory config).map (Engine.mk config)

/-- Caches the files of every preload root, and counts them. -/
def setup (engine : Engine) (source : FileSource) : LoadM Nat := do
  if engine.config.preloads = [] then return 0
  LoadM.tell [.settingUp]
  let total ← engine.config.preloads.foldlM (fun total viewPath => do
    return total + (← engine.loader.preload source viewPath)) 0
  LoadM.report [.preloaded total]
  return total

/-- Loads the view at a path with the data of a context, in a chain of includes of its own. -/
def loadView (engine : Engine) (source : FileSource) (context : Context) (viewPath : Text) :
    LoadM Text := do
  modify fun state => { state with seen := {} }
  engine.loader.load source context viewPath

end Engine

end Pageweave
