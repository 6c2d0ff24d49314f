/-!
Binary floating point of 64 bits: exact values, rounding of quotients to the nearest value with
ties to even, order, and conversions to integers.
-/
namespace MockServer.Number

/-- A number in the 64-bit interchange format, given by its bits. -/
structure Binary64 where
  bits : UInt64
  deriving DecidableEq, Repr

namespace Binary64

def isNegative (x : Binary64) : Bool := 0x8000000000000000 ≤ x.bits.toNat

/-- The bits without the sign; the magnitudes are ordered as these numbers are. -/
def magnitude (x : Binary64) : Nat := x.bits.toNat % 0x8000000000000000

/-- How many magnitudes share an exponent: `2 ^ 52`. -/
def stepSize : Nat := 0x10000000000000

/-- The magnitude of the infinities. -/
def infiniteMagnitude : Nat := 2047 * stepSize

def isNaN (x : Binary64) : Bool := infiniteMagnitude < x.magnitude

def isFinite (x : Binary64) : Bool := x.magnitude < infiniteMagnitude

def isZero (x : Binary64) : Bool := x.magnitude == 0

/-- A value from its sign and its magnitude, which is below `2 ^ 63`. -/
def ofMagnitude (negative : Bool) (magnitude : Nat) : Binary64 :=
  ⟨UInt64.ofNat (if negative then 0x8000000000000000 + magnitude else magnitude)⟩

def zero : Binary64 := ofMagnitude false 0
def infinity : Binary64 := ofMagnitude false infiniteMagnitude
def nan : Binary64 := ofMagnitude false (infiniteMagnitude + 0x8000000000000)
def one : Binary64 := ofMagnitude false (1023 * stepSize)

def half : Binary64 := ofMagnitude false (1022 * stepSize)

def neg (x : Binary64) : Binary64 := ofMagnitude (!x.isNegative) x.magnitude

/-- The integer `m` of a finite magnitude `m * 2 ^ q`. -/
def significand (x : Binary64) : Nat :=
  let field : Nat := x.magnitude / stepSize
  if field = 0 then x.magnitude else stepSize + x.magnitude % stepSize

/-- The exponent `q` of a finite magnitude `m * 2 ^ q`. -/
def exponent (x : Binary64) : Int :=
  let field : Nat := x.magnitude / stepSize
  if field = 0 then -1074 else (field : Int) - 1075

/-- The finite magnitude as a quotient of natural numbers. -/
def ratio (x : Binary64) : Nat × Nat :=
  (x.significand * Nat.pow 2 x.exponent.toNat, Nat.pow 2 (-x.exponent).toNat)

/-- The integer nearest to `num / den`; of two, the even one. -/
def roundHalfEven (num den : Nat) : Nat :=
  let floor := num / den
  let twice := 2 * (num % den)
  if twice < den then floor
  else if den < twice then floor + 1
  else floor + floor % 2

/-- The exponent that leaves 53 bits before the point of `num / den`, or the least exponent. -/
def exponentFor (num den : Nat) : Int :=
  let guess : Int := (Nat.log2 num : Int) - Nat.log2 den
  let reaches : Bool := den * Nat.pow 2 guess.toNat ≤ num * Nat.pow 2 (-guess).toNat
  max ((if reaches then guess else guess - 1) - 52) (-1074)

/-- The value nearest to `num / den`, ties to even. From half a step above the largest finite value
on it is infinite. The significand and the exponent add up to the magnitude, and a significand that
rounds up to `2 ^ 53` carries into the exponent. -/
def ofRatio (negative : Bool) (num den : Nat) : Binary64 :=
  if num = 0 ∨ den = 0 then ofMagnitude negative 0
  else
    let q := exponentFor num den
    let m := roundHalfEven (num * Nat.pow 2 (-q).toNat) (den * Nat.pow 2 q.toNat)
    ofMagnitude negative (min (m + (q + 1074).toNat * stepSize) infiniteMagnitude)

def ofNat (n : Nat) : Binary64 := ofRatio false n 1

def ofInt (n : Int) : Binary64 := ofRatio (n < 0) n.natAbs 1

/-- The value nearest to `digits * 10 ^ exponent`. A magnitude with more than 400 digits before
the point is infinite, and one with more than 400 zeros after it is zero. -/
def ofDecimal (negative : Bool) (digits : Nat) (exponent : Int) : Binary64 :=
  if digits = 0 then ofMagnitude negative 0
  else
    let top := exponent + (Nat.log2 digits : Int) / 4
    if 400 < top then ofMagnitude negative infiniteMagnitude
    else if exponent + (Nat.log2 digits : Int) / 3 < -400 then ofMagnitude negative 0
    else ofRatio negative (digits * Nat.pow 10 exponent.toNat) (Nat.pow 10 (-exponent).toNat)

/-- The product of finite values, rounded. -/
def mul (x y : Binary64) : Binary64 :=
  ofRatio (x.isNegative != y.isNegative) (x.ratio.1 * y.ratio.1) (x.ratio.2 * y.ratio.2)

/-- The quotient of finite values, rounded; the divisor is not zero. -/
def div (x y : Binary64) : Binary64 :=
  ofRatio (x.isNegative != y.isNegative) (x.ratio.1 * y.ratio.2) (x.ratio.2 * y.ratio.1)

/-- The place of a value that is a number in the order of values; both zeros have place 0. -/
def place (x : Binary64) : Int := if x.isNegative then -(x.magnitude : Int) else x.magnitude

/-- The order of values. Nothing is ordered with a NaN. -/
def le (x y : Binary64) : Bool := !x.isNaN && !y.isNaN && decide (x.place ≤ y.place)

def lt (x y : Binary64) : Bool := !x.isNaN && !y.isNaN && decide (x.place < y.place)

/-- The nearest value in the closed interval. A value inside is kept with its sign, also `-0`. -/
def clamp (x low high : Binary64) : Binary64 :=
  if x.lt low then low else if high.lt x then high else x

/-- The integer part of the magnitude times `2 ^ shift`. -/
def scaledFloor (x : Binary64) (shift : Nat) : Nat :=
  x.significand * Nat.pow 2 (x.exponent + shift).toNat / Nat.pow 2 (-(x.exponent + shift)).toNat

/-- Whether the value is finite and has no fraction. -/
def isIntegral (x : Binary64) : Bool := x.isFinite && x.ratio.1 % x.ratio.2 == 0

/-- The integer part of a finite value, toward zero. -/
def truncate (x : Binary64) : Int :=
  let n : Int := x.scaledFloor 0
  if x.isNegative then -n else n

/-- The nearest natural number of 64 bits, halves away from zero. Values below the range and NaN
give 0, values above it the largest number. -/
def roundToUInt64 (x : Binary64) : UInt64 :=
  if x.isNaN || x.isNegative then 0
  else if x.isFinite then
    UInt64.ofNat (min ((2 * x.ratio.1 + x.ratio.2) / (2 * x.ratio.2)) 0xFFFFFFFFFFFFFFFF)
  else UInt64.ofNat 0xFFFFFFFFFFFFFFFF

end Binary64
end MockServer.Number
