import Pageweave.Text.Basic

/-!
# UTF-8

Decoding bytes as UTF-8. A sequence of bytes that no well-formed text contains is reported piece
by piece, one report for each longest start of a well-formed character; `decodeLossy` writes the
replacement character for each of them, and `decode?` accepts only bytes without any.
-/

namespace Pageweave

/-- The content of a file. -/
abbrev Bytes := List UInt8

namespace Utf8

/-- The code point that a lead value and continuation bytes stand for. -/
def codePoint (lead : Nat) (continuation : Bytes) : Nat :=
  continuation.foldl (fun n byte => n * 64 + (byte.toNat - 0x80)) lead

/-- Whether a byte lies between two bounds. -/
def within (low high : UInt8) (byte : UInt8) : Bool :=
  low ≤ byte && byte ≤ high

/-- How a character of several bytes begins: the value bits of its first byte, and the bounds on
each byte that follows. `none` for a byte that begins no such character. -/
def shape? (byte : UInt8) : Option (Nat × List (UInt8 × UInt8)) :=
  if within 0xC2 0xDF byte then some (byte.toNat - 0xC0, [(0x80, 0xBF)])
  else if within 0xE0 0xEF byte then
    let second := if byte = 0xE0 then (0xA0, 0xBF) else if byte = 0xED then (0x80, 0x9F)
      else (0x80, 0xBF)
    some (byte.toNat - 0xE0, [second, (0x80, 0xBF)])
  else if within 0xF0 0xF4 byte then
    let second := if byte = 0xF0 then (0x90, 0xBF) else if byte = 0xF4 then (0x80, 0x8F)
      else (0x80, 0xBF)
    some (byte.toNat - 0xF0, [second, (0x80, 0xBF), (0x80, 0xBF)])
  else none

/-- The bytes at the start of `bytes` that lie within the given bounds, one by one. -/
def continuation : List (UInt8 × UInt8) → Bytes → Bytes
  | (low, high) :: bounds, byte :: bytes =>
      if within low high byte then byte :: continuation bounds bytes else []
  | _, _ => []

/-- The characters of a sequence of bytes, with `none` for each ill-formed piece. `decoded` holds
those found so far, latest first. -/
def pieces (decoded : List (Option Char)) : Bytes → List (Option Char)
  | [] => decoded.reverse
  | byte :: bytes =>
      if byte < 0x80 then pieces (some (Char.ofNat byte.toNat) :: decoded) bytes
      else
        match shape? byte with
        | none => pieces (none :: decoded) bytes
        | some (lead, bounds) =>
            let found := continuation bounds bytes
            let character :=
              if found.length = bounds.length then some (Char.ofNat (codePoint lead found))
              else none
            pieces (character :: decoded) (bytes.drop found.length)
termination_by bytes => bytes.length
decreasing_by all_goals simp only [List.length_cons, List.length_drop]; omega

/-- The text that the bytes encode, if they are well-formed. -/
def decode? (bytes : Bytes) : Option Text :=
  (pieces [] bytes).mapM id

/-- The text that the bytes encode, with U+FFFD in place of each ill-formed piece. -/
def decodeLossy (bytes : Bytes) : Text :=
  (pieces [] bytes).map (·.getD '\ufffd')

/-- The bytes of one character. -/
def encodeChar (c : Char) : Bytes :=
  let n := c.toNat
  if n < 0x80 then [n.toUInt8]
  else if n < 0x800 then [(0xC0 + n / 64).toUInt8, (0x80 + n % 64).toUInt8]
  else if n < 0x10000 then
    [(0xE0 + n / 4096).toUInt8, (0x80 + n / 64 % 64).toUInt8, (0x80 + n % 64).toUInt8]
  else
    [(0xF0 + n / 262144).toUInt8, (0x80 + n / 4096 % 64).toUInt8,
      (0x80 + n / 64 % 64).toUInt8, (0x80 + n % 64).toUInt8]

/-- The bytes of a text. -/
def encode (text : Text) : Bytes :=
  text.flatMap encodeChar

end Utf8

end Pageweave
