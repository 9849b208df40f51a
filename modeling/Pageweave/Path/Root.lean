import Pageweave.Path.Basic
import Pageweave.Text.Blank

/-!
# The view root

View and include paths are relative to one root directory, whatever file they stand in. The root
is made absolute and normalised once; a path is then resolved by dropping the blanks around it and
the separators before it, joining it to the root and normalising the result.
-/

namespace Pageweave

/-- The root directory that view paths are relative to. -/
structure ViewRoot where
  /-- The absolute, normalised path of the directory. -/
  path : Path
deriving DecidableEq, Repr

namespace ViewRoot

/-- The root given by `path`, relative to the working directory if it is relative. The empty path
stands for the working directory. -/
def ofPath (workingDirectory path : Path) : ViewRoot :=
  ⟨(workingDirectory.join path).normalize⟩

/-- The absolute path that a view or include path stands for. -/
def resolve (root : ViewRoot) (viewPath : Text) : Path :=
  let relative := (Text.trim viewPath).dropWhile fun c => c = '/' || c = '\\'
  (root.path.join ⟨relative⟩).normalize

end ViewRoot

end Pageweave
