import Pageweave.Number.Binary64

/-!
# Shortest decimals

`Magnitude.shortest` is the decimal with the fewest digits that rounds to a given magnitude, and
among those the one nearest to it. For each number of digits only the two neighbours of the
magnitude on the grid of decimals with that many digits can be meant: if any point of the grid
rounds to the magnitude, one of its neighbours does.
-/

namespace Pageweave

/-- A decimal: an integer times a power of ten. -/
structure Decimal where
  /-- The integer that the power of ten is multiplied by. -/
  digits : Nat
  /-- The exponent of the power of ten. -/
  exponent : Int
deriving DecidableEq, Repr

/-- The decimal as a ratio of natural numbers. -/
def Decimal.toRatio (x : Decimal) : Nat × Nat :=
  if x.exponent < 0 then (x.digits, Nat.pow 10 (-x.exponent).toNat)
  else (x.digits * Nat.pow 10 x.exponent.toNat, 1)

/-- The magnitude nearest to a decimal, or `none` if that is beyond the greatest one. -/
def Decimal.toMagnitude? (x : Decimal) : Option Magnitude :=
  Magnitude.nearest? x.toRatio.1 x.toRatio.2

/-- Moves the zeros at the end of a number into an exponent of ten. -/
def Decimal.trimZeros (x : Decimal) : Decimal :=
  if x.digits ≠ 0 ∧ x.digits % 10 = 0 then trimZeros ⟨x.digits / 10, x.exponent + 1⟩ else x
termination_by x.digits
decreasing_by omega

namespace Magnitude

/-- The exponent of the greatest power of ten that is at most a positive ratio. -/
def decimalExponent (numerator denominator : Nat) : Int :=
  if denominator ≤ numerator then ((Nat.toDigits 10 (numerator / denominator)).length : Int) - 1
  else -((Nat.toDigits 10 ((denominator - 1) / numerator)).length : Int)

/-- The neighbours of a positive magnitude among the decimals with `count` digits, the nearer one
first, and the even one first where both are equally near. -/
def neighbours (x : Magnitude) (count : Nat) : List Decimal :=
  let (numerator, denominator) := x.toRatio
  let exponent := decimalExponent numerator denominator + 1 - count
  let (n, d) : Nat × Nat :=
    if exponent < 0 then (numerator * Nat.pow 10 (-exponent).toNat, denominator)
    else (numerator, denominator * Nat.pow 10 exponent.toNat)
  let below : Decimal := ⟨n / d, exponent⟩
  let above : Decimal := ⟨n / d + 1, exponent⟩
  if 2 * (n % d) < d || (2 * (n % d) = d && n / d % 2 = 0) then [below, above]
  else [above, below]

/-- The exact decimal value of a magnitude. -/
def toDecimal (x : Magnitude) : Decimal :=
  if x.exponent < 0 then ⟨x.significand * Nat.pow 5 (-x.exponent).toNat, x.exponent⟩
  else ⟨x.significand * Nat.pow 2 x.exponent.toNat, 0⟩

/-- The decimal with the fewest digits that rounds to a positive magnitude, the nearest of them.
Seventeen digits always suffice. -/
def shortest (x : Magnitude) : Decimal :=
  let candidates := (List.range 17).flatMap fun count => x.neighbours (count + 1)
  ((candidates.find? fun decimal => decimal.toMagnitude? = some x).getD x.toDecimal).trimZeros

end Magnitude

end Pageweave
