import MockServer.Json.Tree
import MockServer.Number.Binary64
import MockServer.Number.Digits

/-!
Numbers of JSON as values. Integers are exact up to 64 bits; all others are read in two rounding
steps: the leading digits that fit 64 bits as a 64-bit value, then one scaling by a power of ten.
-/
namespace MockServer.Json.Numeral

open MockServer.Number

def isInteger (n : Numeral) : Bool := n.fraction.isNone && n.exponent.isNone

/-- The number as a natural number, unless it has a sign (also `-0`), a fraction or an exponent. -/
def natural? (n : Numeral) : Option Nat :=
  if n.isInteger && !n.negative then some (ofDigits 10 n.whole) else none

/-- The number as an integer of 64 bits with sign. `-0` is none. -/
def int64? (n : Numeral) : Option Int :=
  let m := ofDigits 10 n.whole
  if !n.isInteger then none
  else if n.negative then (if 0 < m ∧ m ≤ 0x8000000000000000 then some (-(m : Int)) else none)
  else if m < 0x8000000000000000 then some m else none

/-- Digits that were taken, and how many powers of ten they lack. -/
structure Leading where
  significand : Nat := 0
  exponent : Int := 0
  full : Bool := false

/-- Whether one more digit leaves the significand a word of 64 bits. -/
def Leading.fits (l : Leading) (d : Nat) : Bool :=
  !l.full && l.significand * 10 + d < 0x10000000000000000

/-- A digit before the point. Once one does not fit, all later ones only count. -/
def Leading.addWhole (l : Leading) (d : Nat) : Leading :=
  if l.fits d then { l with significand := l.significand * 10 + d }
  else { l with exponent := l.exponent + 1, full := true }

/-- A digit after the point. Once one does not fit, it and all later ones are dropped. -/
def Leading.addFraction (l : Leading) (d : Nat) : Leading :=
  if l.fits d then { l with significand := l.significand * 10 + d, exponent := l.exponent - 1 }
  else { l with full := true }

/-- The leading digits, where the fraction starts anew whether the whole part was full or not. -/
def leading (n : Numeral) : Leading :=
  let whole := n.whole.foldl Leading.addWhole {}
  (n.fraction.getD []).foldl Leading.addFraction { whole with full := false }

/-- The exponent as it is written, zero if there is none. -/
def writtenExponent (n : Numeral) : Int :=
  match n.exponent with
  | none => 0
  | some (negative, digits) =>
    let e : Int := ofDigits 10 digits
    if negative then -e else e

/-- The power of ten as a 64-bit value, for exponents up to 308. -/
def powerOfTen (e : Nat) : Binary64 := Binary64.ofNat (Nat.pow 10 e)

/-- A value divided by `10 ^ e`, in steps of at most 308 until nothing is left of it. -/
def scaleDown (x : Binary64) (e : Nat) : Binary64 :=
  if x.isZero then x
  else if e ≤ 308 then x.div (powerOfTen e)
  else scaleDown (x.div (powerOfTen 308)) (e - 308)
termination_by e

/-- The number as a 64-bit value, or `none` if it is too large for one. -/
def binary64? (n : Numeral) : Option Binary64 :=
  let l := n.leading
  let e := l.exponent + n.writtenExponent
  let m := Binary64.ofNat l.significand
  let x :=
    if e < 0 then scaleDown m (-e).toNat
    else if m.isZero then m
    else if 308 < e then Binary64.infinity
    else m.mul (powerOfTen e.toNat)
  if x.isFinite then some (if n.negative then x.neg else x) else none

end MockServer.Json.Numeral
