import Pageweave.Json.Value

/-!
# Writing JSON

The compact JSON text of a value: no white space, members in their order, and in strings an
escape for the quote, the backslash and the control characters below the space only.
-/

namespace Pageweave.Json

/-- A hexadecimal digit. -/
def hexDigit (n : Nat) : Char :=
  Nat.digitChar (n % 16)

/-- How a character is written inside a string. -/
def escape (c : Char) : Text :=
  match c with
  | '\x22' => ['\\', '\x22']
  | '\\' => ['\\', '\\']
  | '\x08' => ['\\', 'b']
  | '\x0c' => ['\\', 'f']
  | '\n' => ['\\', 'n']
  | '\r' => ['\\', 'r']
  | '\t' => ['\\', 't']
  | c =>
      if c.toNat < 0x20 then ['\\', 'u', '0', '0', hexDigit (c.toNat / 16), hexDigit c.toNat]
      else [c]

/-- A text as a JSON string. -/
def printString (text : Text) : Text :=
  '\x22' :: text.flatMap escape ++ ['\x22']

mutual

/-- The compact JSON text of a value. -/
def print : Value → Text
  | .null => "null".toList
  | .bool true => "true".toList
  | .bool false => "false".toList
  | .number number => number.print
  | .string text => printString text
  | .array items => '[' :: [','].intercalate (printItems items) ++ [']']
  | .object members => '\x7b' :: [','].intercalate (printMembers members) ++ ['\x7d']

/-- The texts of the items of an array. -/
def printItems : List Value → List Text
  | [] => []
  | item :: items => print item :: printItems items

/-- The texts of the members of an object. -/
def printMembers : List (Text × Value) → List Text
  | [] => []
  | (name, value) :: members => (printString name ++ ':' :: print value) :: printMembers members

end

end Pageweave.Json
