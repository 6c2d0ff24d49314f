import MockServer.Number.Binary64
import MockServer.Number.Digits

/-!
The shortest decimal text that reads back as a given 64-bit value.
-/
namespace MockServer.Number.Binary64

/-- Whether `digits * 10 ^ exponent` reads back as the magnitude of `x`. -/
def readsBack (x : Binary64) (exponent : Int) (digits : Nat) : Bool :=
  (ofDecimal false digits exponent).magnitude == x.magnitude

/-- The two multiples of `10 ^ exponent` around the magnitude, and whether the upper one is at
least as near as the lower. -/
def neighbours (x : Binary64) (exponent : Int) : Nat × Nat × Bool :=
  let num := x.ratio.1 * Nat.pow 10 (-exponent).toNat
  let den := x.ratio.2 * Nat.pow 10 exponent.toNat
  (num / den, num / den + 1, den ≤ 2 * (num % den))

/-- The digits on the grid of `10 ^ exponent` that read back. If both neighbours do, the nearer one
is taken, and halfway between them the upper one. -/
def onGrid? (x : Binary64) (exponent : Int) : Option Nat :=
  let (low, high, upper) := x.neighbours exponent
  match x.readsBack exponent low, x.readsBack exponent high with
  | true, true => some (if upper then high else low)
  | true, false => some low
  | false, true => some high
  | false, false => none

/-- The first grid with digits that read back, from `10 ^ exponent` down over `steps` grids. -/
def searchGrids (x : Binary64) (exponent : Int) : Nat → Option (Nat × Int)
  | 0 => none
  | steps + 1 =>
    match x.onGrid? exponent with
    | some digits => some (digits, exponent)
    | none => searchGrids x (exponent - 1) steps

/-- An exponent above that of the first decimal digit of a finite magnitude. -/
def topExponent (x : Binary64) : Int := ((Nat.log2 x.significand : Int) + x.exponent) * 3 / 10 + 2

/-- The shortest digits of a finite value that is not zero, and the exponent of the last one.
Seventeen digits always read back, and at most four grids lie above the first digit. -/
def shortestDigits (x : Binary64) : Nat × Int :=
  (x.searchGrids x.topExponent 24).getD (0, 0)

/-- Digits in positional notation, without a point if there is no fraction. -/
def positional (digits : Nat) (exponent : Int) : List Char :=
  let text := natText digits
  if 0 ≤ exponent then text ++ List.replicate exponent.toNat '0'
  else
    let places := (-exponent).toNat
    let text := List.replicate (places + 1 - text.length) '0' ++ text
    text.take (text.length - places) ++ '.' :: text.drop (text.length - places)

/-- The text of a value: positional whatever the magnitude, with the sign of a negative zero. -/
def text (x : Binary64) : List Char :=
  if x.isNaN then "NaN".toList
  else
    let sign := if x.isNegative then ['-'] else []
    if !x.isFinite then sign ++ "inf".toList
    else if x.isZero then sign ++ ['0']
    else sign ++ positional x.shortestDigits.1 x.shortestDigits.2

end MockServer.Number.Binary64
