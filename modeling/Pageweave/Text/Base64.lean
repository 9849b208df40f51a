import Pageweave.Text.Utf8

/-!
# Base64

The standard base64 alphabet with padding: three bytes become four digits of six bits, and a last
group of one or two bytes is filled up with `=`.
-/

namespace Pageweave.Base64

/-- The digits of base64 in the order of their values. -/
def alphabet : Text :=
  "ABCDEFGHIJKLMNOPQRSTUVWXYZabcdefghijklmnopqrstuvwxyz0123456789+/".toList

/-- The digit with the value `n % 64`. -/
def digit (n : Nat) : Char :=
  alphabet.getD (n % 64) '='

/-- Encodes the rest of the bytes; `written` holds the text so far, latest character first. -/
def encodeFrom (written : Text) : Bytes → Text
  | a :: b :: c :: bytes =>
      let n := a.toNat * 65536 + b.toNat * 256 + c.toNat
      encodeFrom (digit n :: digit (n / 64) :: digit (n / 4096) :: digit (n / 262144) :: written)
        bytes
  | [a, b] =>
      let n := a.toNat * 1024 + b.toNat * 4
      ('=' :: digit n :: digit (n / 64) :: digit (n / 4096) :: written).reverse
  | [a] =>
      let n := a.toNat * 16
      ('=' :: '=' :: digit n :: digit (n / 64) :: written).reverse
  | [] => written.reverse

/-- The base64 text of a sequence of bytes. -/
def encode (bytes : Bytes) : Text :=
  encodeFrom [] bytes

/-- The value of a base64 digit. -/
def value? (c : Char) : Option Nat :=
  alphabet.idxOf? c

/-- The bytes that a base64 text stands for, if it is well-formed. -/
def decode? : Text → Option Bytes
  | [] => some []
  | [a, b, '=', '='] => do
      let n := (← value? a) * 64 + (← value? b)
      return [(n / 16).toUInt8]
  | [a, b, c, '='] => do
      let n := (← value? a) * 4096 + (← value? b) * 64 + (← value? c)
      return [(n / 1024).toUInt8, (n / 4).toUInt8]
  | a :: b :: c :: d :: text => do
      let n := (← value? a) * 262144 + (← value? b) * 4096 + (← value? c) * 64 + (← value? d)
      return (n / 65536).toUInt8 :: (n / 256).toUInt8 :: n.toUInt8 :: (← decode? text)
  | _ => none

end Pageweave.Base64
