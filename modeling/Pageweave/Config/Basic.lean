import Pageweave.Failure.View

/-!
# Configurations

The options of a view loader, with their defaults, and the conditions they have to meet.
-/

namespace Pageweave

/-- The options of a view loader. -/
structure Config where
  /-- The directory that view paths are relative to. -/
  root : Path := Path.empty
  /-- The view paths whose files are cached at the start. -/
  preloads : List Text := []
  /-- Whether scripts are minified. -/
  minify : Bool := true
  /-- The text before which the data snapshot is inserted. -/
  contextAnchor : Text := "</head>".toList
  /-- The global name that the data snapshot is assigned to. -/
  clientVariable : Text := "viewData".toList
  /-- The greatest number of substitutions in one scan. -/
  maxSubstitutions : Nat := 4096
deriving DecidableEq, Repr

namespace Config

/-- A character of a script identifier or of a dotted sequence of them. -/
def isIdentifierCharacter (c : Char) : Bool :=
  c.isAlphanum || c = '_' || c = '$' || c = '.'

/-- The first thing that is wrong with a configuration, if any. -/
def fault? (config : Config) : Option ConfigFault :=
  if config.contextAnchor = [] then some .emptyAnchor
  else if config.clientVariable = [] || !config.clientVariable.all isIdentifierCharacter then
    some (.invalidVariable config.clientVariable)
  else if config.maxSubstitutions = 0 then some .noSubstitutions
  else none

end Config

end Pageweave
