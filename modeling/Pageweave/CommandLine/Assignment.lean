import Pageweave.Context
import Pageweave.Json.Parser
import Pageweave.Text.Blank

/-!
# Assignments

A variable is given on the command line as a name, an equals sign and a value. The value is read
as JSON where it is JSON, and taken as text otherwise.
-/

namespace Pageweave

/-- A value for a name. -/
structure Assignment where
  /-- The name, without blanks around it. -/
  name : Text
  /-- The value. -/
  value : Value

/-- What is wrong with a text that should be an assignment. -/
inductive AssignmentFault where
  /-- There is no equals sign. -/
  | noSeparator (written : Text)
  /-- There is nothing but blanks before the equals sign. -/
  | noName (written : Text)
deriving DecidableEq, Repr

/-- The wording of a fault. -/
def AssignmentFault.message : AssignmentFault → Text
  | noSeparator written => "expected KEY=VALUE, got '".toList ++ written ++ ['\x27']
  | noName written => "missing variable name in '".toList ++ written ++ ['\x27']

namespace Assignment

/-- The value that a text on the command line stands for. -/
def valueOf (written : Text) : Value :=
  (Json.read? written).getD (.string written)

/-- The assignment that a text stands for. The name ends at the first equals sign. -/
def ofText (written : Text) : Except AssignmentFault Assignment :=
  match Text.splitOnce '=' written with
  | none => .error (.noSeparator written)
  | some (before, after) =>
      if Text.trim before = [] then .error (.noName written)
      else .ok ⟨Text.trim before, valueOf after⟩

/-- The context with the value under the name. -/
def applyTo (assignment : Assignment) (context : Context) : Context :=
  context.assign assignment.name assignment.value

end Assignment

end Pageweave
