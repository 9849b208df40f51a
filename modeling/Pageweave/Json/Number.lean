import Pageweave.Number.Shortest
import Pageweave.Text.Basic

/-!
# Numbers of data values

A number is an integer of 64 bits, with or without a sign, or a floating-point number. Reading
keeps integers exact where they fit. Any other number is read from its leading digits, as many as
fit an unsigned integer of 64 bits, and the power of ten that remains; the two are combined as
`Magnitude.scaleByTen?` says. Writing uses the shortest decimal that rounds to the number.
-/

namespace Pageweave

/-- A number as it occurs in data. -/
inductive Number where
  /-- An integer that fits 64 bits. -/
  | integer (value : Int)
  /-- A floating-point number. -/
  | float (value : Binary64)
deriving DecidableEq, Repr

namespace Number

/-- The greatest unsigned integer of 64 bits. -/
def greatestWord : Nat := Nat.pow 2 64 - 1

/-- The least power of ten, and the least negative power, at which a floating-point number is
written with an exponent. -/
structure Layout where
  /-- Numbers from this power of ten on are written with an exponent. -/
  upper : Int
  /-- Numbers below this power of ten are written with an exponent. -/
  lower : Int

/-- Floating-point numbers are written without an exponent from 0.00001 up to, but not including,
10000000000000000. -/
def layout : Layout := ⟨16, -5⟩

/-- The text of a positive decimal: plain, with at least one place, or with an exponent. -/
def decimalText (decimal : Decimal) : Text :=
  let digits := Text.ofNat decimal.digits
  let scientific := decimal.exponent + digits.length - 1
  if layout.lower ≤ scientific && scientific < layout.upper then
    if 0 ≤ decimal.exponent then
      digits ++ List.replicate decimal.exponent.toNat '0' ++ ['.', '0']
    else if 0 ≤ scientific then
      let whole := scientific.toNat + 1
      digits.take whole ++ '.' :: digits.drop whole
    else ['0', '.'] ++ List.replicate (-scientific - 1).toNat '0' ++ digits
  else
    let fraction := if digits.length ≤ 1 then [] else '.' :: digits.drop 1
    let sign := if scientific < 0 then '-' else '+'
    digits.take 1 ++ fraction ++ 'e' :: sign :: Text.ofNat scientific.natAbs

/-- The text of a number. -/
def print : Number → Text
  | integer value => (if value < 0 then ['-'] else []) ++ Text.ofNat value.natAbs
  | float value =>
      let magnitude :=
        if value.magnitude.significand = 0 then ['0', '.', '0']
        else decimalText value.magnitude.shortest
      if value.negative then '-' :: magnitude else magnitude

/-- The leading digits of a number, as far as they fit a word, and how many fit. -/
def leadingDigits (word taken : Nat) : Text → Nat × Nat
  | [] => (word, taken)
  | c :: digits =>
      let next := 10 * word + (c.toNat - '0'.toNat)
      if greatestWord < next then (word, taken) else leadingDigits next (taken + 1) digits

/-- The value of a run of digits, or the bound `limit` if that is less. -/
def cappedValue (limit : Nat) (digits : Text) : Nat :=
  digits.foldl (fun n c => min limit (10 * n + (c.toNat - '0'.toNat))) 0

/-- A number cut into its parts. -/
structure Parts where
  /-- Whether it starts with a minus sign. -/
  negative : Bool
  /-- The digits before the point. -/
  whole : Text
  /-- The digits after the point. -/
  fraction : Text
  /-- Whether the exponent has a minus sign. -/
  exponentNegative : Bool
  /-- The digits of the exponent, if there is one. -/
  exponent : Option Text
deriving DecidableEq, Repr

/-- The greatest exponent that is told apart from greater ones. -/
def greatestExponent : Nat := Nat.pow 2 31 - 1

/-- The floating-point number that parts stand for, or `none` if it is too great. -/
def Parts.toFloat? (parts : Parts) : Option Binary64 := do
  let (word, taken) := leadingDigits 0 0 parts.whole
  let (significand, places) := leadingDigits word 0 parts.fraction
  let written := cappedValue (greatestExponent + 1) (parts.exponent.getD [])
  if greatestExponent < written then
    if significand ≠ 0 && !parts.exponentNegative then none
    else some ⟨parts.negative, Magnitude.zero⟩
  else
    let exponent : Int := if parts.exponentNegative then -written else written
    let dropped : Int := (parts.whole.length - taken : Nat)
    let magnitude ← Magnitude.nearest? significand 1
    let scaled ← magnitude.scaleByTen? (exponent + dropped - places)
    some ⟨parts.negative, scaled⟩

/-- The number that parts stand for, or `none` if it is too great. -/
def Parts.toNumber? (parts : Parts) : Option Number :=
  let (word, taken) := leadingDigits 0 0 parts.whole
  if parts.fraction = [] && parts.exponent.isNone && taken = parts.whole.length then
    if !parts.negative then some (.integer word)
    else if word = 0 || Nat.pow 2 63 < word then parts.toFloat?.map .float
    else some (.integer (-word))
  else parts.toFloat?.map .float

/-- The parts of the number at the start of a text, and its length. -/
def measure? (text : Text) : Option (Parts × Nat) := do
  let negative := text.head? = some '-'
  let afterSign := if negative then text.drop 1 else text
  let whole := afterSign.takeWhile Char.isDigit
  if whole = [] || (whole.head? = some '0' && whole.length ≠ 1) then none
  let afterWhole := afterSign.drop whole.length
  let point := afterWhole.head? = some '.'
  let fraction := if point then (afterWhole.drop 1).takeWhile Char.isDigit else []
  if point && fraction = [] then none
  let afterFraction := if point then afterWhole.drop (1 + fraction.length) else afterWhole
  let length := (if negative then 1 else 0) + whole.length +
    (if point then 1 + fraction.length else 0)
  if afterFraction.head? = some 'e' || afterFraction.head? = some 'E' then
    let signed := (afterFraction.drop 1).head?
    let hasSign := signed = some '+' || signed = some '-'
    let exponent := (afterFraction.drop (if hasSign then 2 else 1)).takeWhile Char.isDigit
    if exponent = [] then none
    some (⟨negative, whole, fraction, signed = some '-', some exponent⟩,
      length + (if hasSign then 2 else 1) + exponent.length)
  else some (⟨negative, whole, fraction, false, none⟩, length)

end Number

end Pageweave
