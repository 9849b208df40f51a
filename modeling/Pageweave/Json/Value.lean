import Pageweave.Json.Number

/-!
# Data values

The values that templates are filled with. The members of an object are kept in the order of
their names, each name once; `Members.insert` keeps them so.
-/

namespace Pageweave

/-- A data value. -/
inductive Value where
  /-- The absent value. -/
  | null
  /-- A truth value. -/
  | bool (value : Bool)
  /-- A number. -/
  | number (value : Number)
  /-- A text. -/
  | string (value : Text)
  /-- A sequence of values. -/
  | array (items : List Value)
  /-- Named values, in the order of their names. -/
  | object (members : List (Text × Value))

/-- The members of an object. -/
abbrev Members := List (Text × Value)

namespace Members

/-- The members with `value` under `name`, in place of the value it had. -/
def insert (name : Text) (value : Value) : Members → Members
  | [] => [(name, value)]
  | (other, present) :: members =>
      if name = other then (name, value) :: members
      else if Text.precedes name other then (name, value) :: (other, present) :: members
      else (other, present) :: insert name value members

/-- The value under `name`. -/
def find? (name : Text) : Members → Option Value
  | [] => none
  | (other, value) :: members => if name = other then some value else find? name members

@[simp]
theorem find?_insert_self (name : Text) (value : Value) (members : Members) :
    find? name (insert name value members) = some value := by
  induction members with
  | nil => simp [insert, find?]
  | cons member members ih =>
      obtain ⟨other, present⟩ := member
      simp only [insert]
      split
      · simp [find?]
      · next differ =>
          split
          · simp [find?]
          · simp [find?, differ, ih]

theorem find?_insert_of_ne {name other : Text} (h : other ≠ name) (value : Value)
    (members : Members) : find? other (insert name value members) = find? other members := by
  induction members with
  | nil => simp [insert, find?, h]
  | cons member members ih =>
      obtain ⟨third, present⟩ := member
      simp only [insert]
      split
      · next same => subst same; simp [find?, h]
      · split
        · simp [find?, h]
        · simp only [find?, ih]

end Members

/-- Whether a value is an object or an array. -/
def Value.isContainer : Value → Bool
  | array _ | object _ => true
  | null | bool _ | number _ | string _ => false

end Pageweave
