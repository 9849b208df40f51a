/-!
# Binary floating-point numbers

The finite numbers of the format with 53 significant bits and exponents from -1074 to 971. A
magnitude is a natural significand times a power of two; arithmetic is exact arithmetic on natural
numbers followed by one rounding, to the nearest representable magnitude and to the one with an
even significand where two are equally near.
-/

namespace Pageweave

/-- A non-negative number of the format: a significand times a power of two. The significand has
53 bits, or fewer if the exponent is the least one. -/
structure Magnitude where
  /-- The integer that the power of two is multiplied by. -/
  significand : Nat
  /-- The exponent of the power of two. -/
  exponent : Int
deriving DecidableEq, Repr

/-- A finite number with a sign; zero has two signs. -/
structure Binary64 where
  /-- Whether the sign is minus. -/
  negative : Bool
  /-- The number without its sign. -/
  magnitude : Magnitude
deriving DecidableEq, Repr

namespace Magnitude

/-- The least exponent. -/
def leastExponent : Int := -1074

/-- The greatest exponent. -/
def greatestExponent : Int := 971

/-- The number zero. -/
def zero : Magnitude :=
  ⟨0, leastExponent⟩

/-- The ratio `numerator / denominator` divided by a power of two, again as a ratio. -/
def scaled (numerator denominator : Nat) (exponent : Int) : Nat × Nat :=
  if exponent < 0 then (numerator * Nat.pow 2 (-exponent).toNat, denominator)
  else (numerator, denominator * Nat.pow 2 exponent.toNat)

/-- The exponent with which a positive ratio has 53 significant bits, or the least exponent if that
one is greater. -/
def exponentOf (numerator denominator : Nat) : Int :=
  let low : Int := (numerator.log2 : Int) - denominator.log2 - 53
  let (n, d) := scaled numerator denominator low
  max leastExponent (if Nat.pow 2 53 ≤ n / d then low + 1 else low)

/-- The integer nearest to `numerator / denominator`, the even one of two equally near. -/
def roundHalfEven (numerator denominator : Nat) : Nat :=
  let quotient := numerator / denominator
  let twice := 2 * (numerator % denominator)
  if denominator < twice || (denominator = twice && quotient % 2 = 1) then quotient + 1
  else quotient

/-- The magnitude nearest to `numerator / denominator`, or `none` if that is beyond the greatest
one. -/
def nearest? (numerator denominator : Nat) : Option Magnitude :=
  if numerator = 0 then some zero
  else
    let exponent := exponentOf numerator denominator
    let (n, d) := scaled numerator denominator exponent
    let significand := roundHalfEven n d
    let rounded : Magnitude :=
      if significand = Nat.pow 2 53 then ⟨Nat.pow 2 52, exponent + 1⟩ else ⟨significand, exponent⟩
    if greatestExponent < rounded.exponent then none else some rounded

/-- The magnitude as a ratio of natural numbers. -/
def toRatio (x : Magnitude) : Nat × Nat :=
  if x.exponent < 0 then (x.significand, Nat.pow 2 (-x.exponent).toNat)
  else (x.significand * Nat.pow 2 x.exponent.toNat, 1)

/-- The product, rounded once. -/
def mul? (x y : Magnitude) : Option Magnitude :=
  nearest? (x.toRatio.1 * y.toRatio.1) (x.toRatio.2 * y.toRatio.2)

/-- The quotient by a positive number, rounded once. -/
def div? (x y : Magnitude) : Option Magnitude :=
  nearest? (x.toRatio.1 * y.toRatio.2) (x.toRatio.2 * y.toRatio.1)

/-- The number times ten to the power `exponent`. A power of at most 308 is rounded to the format
before one multiplication or division; a smaller one is reached by dividing by the 308th power
first, as often as necessary. -/
def scaleByTen? (x : Magnitude) (exponent : Int) : Option Magnitude :=
  if exponent.natAbs ≤ 308 then do
    let power ← nearest? (Nat.pow 10 exponent.natAbs) 1
    if exponent < 0 then x.div? power else x.mul? power
  else if x.significand = 0 then some x
  else if 0 < exponent then none
  else do
    let power ← nearest? (Nat.pow 10 308) 1
    let smaller ← x.div? power
    smaller.scaleByTen? (exponent + 308)
termination_by exponent.natAbs
decreasing_by omega

end Magnitude

end Pageweave
