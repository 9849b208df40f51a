import Pageweave.Json.Printer

/-!
# Data contexts

A context holds the named values of one view. A key path names a value in it: the segments of the
path lead from the value under the first segment to its members and items. A path whose first
segment names a scalar stands for that scalar; a path that leads nowhere beyond some point stands
for the last value reached.
-/

namespace Pageweave

/-- The named values a view is rendered with. -/
structure Context where
  /-- The values in the order of their names. -/
  members : Members := []

namespace Context

/-- The context with `value` under `name`, in place of the value it had. -/
def assign (context : Context) (name : Text) (value : Value) : Context :=
  ⟨context.members.insert name value⟩

/-- The value under `name`. -/
def find? (context : Context) (name : Text) : Option Value :=
  context.members.find? name

/-- The number of names. -/
def size (context : Context) : Nat :=
  context.members.length

/-- The compact JSON text of the context. -/
def toJson (context : Context) : Text :=
  Json.print (.object context.members)

@[simp]
theorem find?_assign_self (context : Context) (name : Text) (value : Value) :
    (context.assign name value).find? name = some value :=
  Members.find?_insert_self name value context.members

theorem find?_assign_of_ne {name other : Text} (h : other ≠ name) (context : Context)
    (value : Value) : (context.assign name value).find? other = context.find? other :=
  Members.find?_insert_of_ne h value context.members

end Context

/-- What a key path stands for. -/
inductive Resolution where
  /-- Every segment led on, or the first one names a scalar. -/
  | found (value : Value)
  /-- The segment `missing` leads nowhere from `value`, the last value reached. -/
  | partly (value : Value) (missing : Text)
  /-- The context has no value under the first segment. -/
  | missing

/-- The number an array segment stands for: decimal digits, perhaps after a plus sign, and less
than two to the power 64. -/
def itemIndex? (segment : Text) : Option Nat :=
  let digits := if segment.head? = some '+' then segment.drop 1 else segment
  (Text.toNat? digits).filter (· < Nat.pow 2 64)

/-- The member or item of a value that a segment names. -/
def Value.child? (segment : Text) : Value → Option Value
  | .object members => Members.find? segment members
  | .array items => do items[← itemIndex? segment]?
  | .null | .bool _ | .number _ | .string _ => none

/-- Follows the segments of a key path from a value. -/
def Value.descend (value : Value) : List Text → Resolution
  | [] => .found value
  | segment :: segments =>
      match value.child? segment with
      | some child => child.descend segments
      | none => .partly value segment

/-- What a key path stands for in a context. Empty segments after the first are skipped. -/
def Context.resolve (context : Context) (keyPath : Text) : Resolution :=
  match Text.splitOn '.' keyPath with
  | [] => .missing
  | first :: segments =>
      match context.find? first with
      | none => .missing
      | some value =>
          if value.isContainer then value.descend (segments.filter (· ≠ [])) else .found value

/-- The text a value is written as in a template: a string as it is, anything else as JSON. -/
def Value.interpolated : Value → Text
  | .string text => text
  | value => Json.print value

end Pageweave
