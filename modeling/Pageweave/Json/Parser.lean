import Pageweave.Json.Token

/-!
# Reading JSON

The second half of reading JSON: the tokens of a text drive a machine that keeps the containers
still open on a stack. At most 127 containers may be open at a time. Where a name occurs twice in
an object, the later value counts.
-/

namespace Pageweave.Json

/-- A container that has been opened and not yet closed. -/
inductive Frame where
  /-- An array with the items read so far, latest first. -/
  | array (items : List Value)
  /-- An object with the members read so far, and the name the next value belongs to. -/
  | object (members : Members) (name : Text)

/-- What the reader waits for, with the containers that are open, innermost first. -/
inductive State where
  /-- A value, or the end of the array just opened if `closable`. -/
  | value (frames : List Frame) (closable : Bool)
  /-- The name of a member, or the end of the object just opened if `closable`. -/
  | name (frames : List Frame) (members : Members) (closable : Bool)
  /-- The colon after a name. -/
  | colon (frames : List Frame) (members : Members) (name : Text)
  /-- A comma, or the end of the array. -/
  | afterItem (frames : List Frame) (items : List Value)
  /-- A comma, or the end of the object. -/
  | afterMember (frames : List Frame) (members : Members)
  /-- Nothing more. -/
  | complete (value : Value)

/-- The number of containers that may be open at a time. -/
def nestingLimit : Nat := 127

/-- The state after a complete value. -/
def State.ofValue (datum : Value) : List Frame → State
  | [] => .complete datum
  | .array items :: frames => .afterItem frames (datum :: items)
  | .object members key :: frames => .afterMember frames (members.insert key datum)

/-- The state after one more token, or `none` if the token may not stand there. -/
def State.step : State → Token → Option State
  | .value frames _, .scalar datum => some (.ofValue datum frames)
  | .value frames _, .openArray => opened frames (.value (.array [] :: frames) true)
  | .value frames _, .openObject => opened frames (.name frames [] true)
  | .value (.array [] :: frames) true, .closeArray => some (.ofValue (.array []) frames)
  | .name frames members _, .scalar (.string key) => some (.colon frames members key)
  | .name frames members true, .closeObject => some (.ofValue (.object members) frames)
  | .colon frames members key, .colon => some (.value (.object members key :: frames) false)
  | .afterItem frames items, .comma => some (.value (.array items :: frames) false)
  | .afterItem frames items, .closeArray => some (.ofValue (.array items.reverse) frames)
  | .afterMember frames members, .comma => some (.name frames members false)
  | .afterMember frames members, .closeObject => some (.ofValue (.object members) frames)
  | _, _ => none
where
  /-- The state inside a container opened below the given ones, if they are not too many. -/
  opened (frames : List Frame) (state : State) : Option State :=
    if frames.length < nestingLimit then some state else none

/-- The value that a JSON text stands for. -/
def read? (text : Text) : Option Value := do
  let tokens ← tokens? text
  match ← tokens.foldlM State.step (.value [] false) with
  | .complete value => some value
  | _ => none

end Pageweave.Json
