import Pageweave.Json.Value

/-!
# Tokens of JSON texts

The first half of reading JSON: a text is cut into tokens, with the blanks between them dropped.
`Token.measure?` recognises the token at the front and says how many further characters it has.
-/

namespace Pageweave.Json

/-- A token of a JSON text. -/
inductive Token where
  /-- The bracket that opens an array. -/
  | openArray
  /-- The bracket that closes an array. -/
  | closeArray
  /-- The brace that opens an object. -/
  | openObject
  /-- The brace that closes an object. -/
  | closeObject
  /-- A comma. -/
  | comma
  /-- A colon. -/
  | colon
  /-- A string, a number or a literal name. -/
  | scalar (value : Value)

/-- The white space that may stand between tokens. -/
def isSeparator (c : Char) : Bool :=
  c = ' ' || c = '\t' || c = '\n' || c = '\r'

/-- The value of a hexadecimal digit. -/
def hexValue? (c : Char) : Option Nat :=
  if c.isDigit then some (c.toNat - '0'.toNat)
  else if 'a' ≤ c && c ≤ 'f' then some (c.toNat - 'a'.toNat + 10)
  else if 'A' ≤ c && c ≤ 'F' then some (c.toNat - 'A'.toNat + 10)
  else none

/-- The number written by four hexadecimal digits at the start of a text. -/
def unit? : Text → Option Nat
  | a :: b :: c :: d :: _ => do
      return (← hexValue? a) * 4096 + (← hexValue? b) * 256 + (← hexValue? c) * 16 +
        (← hexValue? d)
  | _ => none

/-- The character that an escape stands for, given what follows `\u`, and the number of further
characters in the escape. A character beyond the first 65536 is written by two escapes. -/
def unicodeEscape? (text : Text) : Option (Char × Nat) := do
  let high ← unit? text
  if 0xD800 ≤ high && high ≤ 0xDBFF then
    let second ← Text.after? ['\\', 'u'] (text.drop 4)
    let low ← unit? second
    if 0xDC00 ≤ low && low ≤ 0xDFFF then
      some (Char.ofNat (0x10000 + (high - 0xD800) * 0x400 + (low - 0xDC00)), 10)
    else none
  else if 0xDC00 ≤ high && high ≤ 0xDFFF then none
  else some (Char.ofNat high, 4)

/-- The character that a one-letter escape stands for. -/
def simpleEscape? (c : Char) : Option Char :=
  match c with
  | '\x22' => some '\x22'
  | '\\' => some '\\'
  | '/' => some '/'
  | 'b' => some '\x08'
  | 'f' => some '\x0c'
  | 'n' => some '\n'
  | 'r' => some '\r'
  | 't' => some '\t'
  | _ => none

/-- The text of a string after its opening quote, and the number of characters through the closing
quote. `read` holds the characters so far, latest first, and `taken` their number as written. -/
def stringBody? (read : Text) (taken : Nat) : Text → Option (Text × Nat)
  | [] => none
  | c :: rest =>
      if c = '\x22' then some (read.reverse, taken + 1)
      else if c = '\\' then
        match rest with
        | [] => none
        | e :: rest =>
            if e = 'u' then
              match unicodeEscape? rest with
              | none => none
              | some (character, extent) =>
                  stringBody? (character :: read) (taken + 2 + extent) (rest.drop extent)
            else
              match simpleEscape? e with
              | none => none
              | some character => stringBody? (character :: read) (taken + 2) rest
      else if c.toNat < 0x20 then none
      else stringBody? (c :: read) (taken + 1) rest
termination_by text => text.length
decreasing_by all_goals simp only [List.length_cons, List.length_drop]; omega

/-- A literal name whose first character has been read. -/
def name? (rest : Text) (expected : String) (value : Value) : Option (Token × Nat) :=
  if Text.startsWith expected.toList rest then some (.scalar value, expected.length) else none

/-- Recognises the token that begins with `c` when `rest` follows, and the number of characters of
`rest` that belong to it. -/
def Token.measure? (c : Char) (rest : Text) : Option (Token × Nat) :=
  match c with
  | '[' => some (.openArray, 0)
  | ']' => some (.closeArray, 0)
  | '\x7b' => some (.openObject, 0)
  | '\x7d' => some (.closeObject, 0)
  | ',' => some (.comma, 0)
  | ':' => some (.colon, 0)
  | 'n' => name? rest "ull" .null
  | 't' => name? rest "rue" (.bool true)
  | 'f' => name? rest "alse" (.bool false)
  | '\x22' => (stringBody? [] 0 rest).map fun (text, extent) => (.scalar (.string text), extent)
  | c => do
      let (parts, length) ← Number.measure? (c :: rest)
      let number ← parts.toNumber?
      return (.scalar (.number number), length - 1)

/-- Cuts the rest of a text into tokens; `found` holds those so far, latest first. -/
def tokensFrom (found : List Token) : Text → Option (List Token)
  | [] => some found.reverse
  | c :: rest =>
      if isSeparator c then tokensFrom found rest
      else
        match Token.measure? c rest with
        | none => none
        | some (token, extent) => tokensFrom (token :: found) (rest.drop extent)
termination_by text => text.length
decreasing_by all_goals simp only [List.length_cons, List.length_drop]; omega

/-- The tokens of a JSON text. -/
def tokens? (text : Text) : Option (List Token) :=
  tokensFrom [] text

end Pageweave.Json
