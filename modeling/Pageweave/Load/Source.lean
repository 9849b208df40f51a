import Pageweave.Failure.View
import Pageweave.Notice
import Pageweave.Text.Utf8

/-!
# Sources of files

Where views come from: something that lists the files below a path and reads them. A source stands
for the files as they are during one operation. It offers finitely many versions of files, and
lists no others.
-/

namespace Pageweave

/-- A state of the files that views are loaded from. -/
structure FileSource where
  /-- The files at or below a path, in the order in which their contents are put together. -/
  walk : Path → Except ViewFailure (List FileEntry)
  /-- The content of a file. -/
  read : Path → Except FileFailure Bytes
  /-- All versions of files there are. -/
  versions : List FileEntry
  /-- Only these versions are listed. -/
  mem_versions : ∀ {path : Path} {entries : List FileEntry} {entry : FileEntry},
    walk path = .ok entries → entry ∈ entries → entry ∈ versions
  /-- Whether it tells how many files it has listed. -/
  counts : Bool := false

/-- What is told about the files listed at a path. -/
def FileSource.listed (source : FileSource) (path : Path) : List Detail :=
  match source.walk path with
  | .ok entries => if source.counts then [.walked entries.length path] else []
  | .error _ => []

end Pageweave
