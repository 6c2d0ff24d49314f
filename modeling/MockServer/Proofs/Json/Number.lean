import MockServer.Json.Numeral
import MockServer.Number.DigitsLemmas
import MockServer.Proofs.Json.Scalar
import MockServer.Proofs.Number.Rounding

/-!
Numbers as they are kept once they are read: integers of 64 bits are exact, and all others are
64-bit values. An integer without sign that only fits the second way does not become small by it.
-/
namespace MockServer.Json

open MockServer.Number

/-- A kept number. -/
inductive NumberValue where
  | integer (n : Int)
  | binary (x : Binary64)
  deriving DecidableEq, Repr

/-- The number is this integer, exactly. -/
def NumberValue.Is : NumberValue → Int → Prop
  | .integer m, n => m = n
  | .binary x, n => x.isFinite = true ∧ x.rational = n

namespace Numeral

variable {numeral : Numeral} {m : Nat} {n : Int}

/-- How a written number is kept: as an integer of 64 bits without sign, then as one with sign, then
as a 64-bit value. -/
def value? (numeral : Numeral) : Option NumberValue :=
  match numeral.natural?.filter (· < 0x10000000000000000) with
  | some m => some (.integer m)
  | none => match numeral.int64? with
    | some n => some (.integer n)
    | none => numeral.binary64?.map .binary

private theorem le_foldl_digits (m : Nat) (digits : List Nat) :
    m ≤ digits.foldl (fun m d => m * 10 + d) m := by
  induction digits generalizing m with
  | nil => exact Nat.le_refl m
  | cons d digits ih => exact Nat.le_trans (by omega) (ih (m * 10 + d))

/-- Digits of a word of 64 bits are all taken. -/
theorem foldl_addWhole {digits : List Nat}
    (h : digits.foldl (fun m d => m * 10 + d) m < 0x10000000000000000) :
    digits.foldl Leading.addWhole ⟨m, 0, false⟩ =
      ⟨digits.foldl (fun m d => m * 10 + d) m, 0, false⟩ := by
  induction digits generalizing m with
  | nil => rfl
  | cons d digits ih =>
    have hfits : Leading.fits ⟨m, 0, false⟩ d = true := by
      simpa [Leading.fits] using Nat.lt_of_le_of_lt (le_foldl_digits _ digits) h
    rw [List.foldl_cons, Leading.addWhole, if_pos hfits]
    exact ih h

theorem natural?_eq_some_iff : numeral.natural? = some m ↔
    numeral.fraction = none ∧ numeral.exponent = none ∧ numeral.negative = false ∧
      ofDigits 10 numeral.whole = m := by
  simp [natural?, isInteger, and_assoc]

/-- A natural number that is a word is as large, up to rounding, when it is read as a 64-bit
value. -/
theorem le_truncate_of_natural (h : numeral.natural? = some m) (hlow : 0x8000000000000000 ≤ m)
    (hhigh : m < 0x10000000000000000) {x : Binary64} (hx : numeral.binary64? = some x) :
    0x8000000000000000 ≤ x.truncate := by
  obtain ⟨hfraction, hexponent, hnegative, hwhole⟩ := natural?_eq_some_iff.mp h
  have hleading : numeral.leading = ⟨m, 0, false⟩ := by
    have hword : ofDigits 10 numeral.whole < 0x10000000000000000 := by rwa [hwhole]
    have hfold := foldl_addWhole hword
    rw [leading, hfraction, Option.getD_none, List.foldl_nil, hfold]
    exact congrArg (Leading.mk · 0 false) hwhole
  have hwritten : numeral.writtenExponent = 0 := by rw [writtenExponent, hexponent]
  have hlarge : (63 + 1023) * Binary64.stepSize ≤ (Binary64.ofNat m).magnitude :=
    Binary64.le_magnitude_ofRatio (by decide) (by decide) (by omega) false
  have hzero : (Binary64.ofNat m).isZero = false := by
    rw [Binary64.isZero, beq_eq_false_iff_ne]
    have hpos : 0 < (63 + 1023) * Binary64.stepSize := by decide
    omega
  have hproduct : numeral.binary64? =
      if ((Binary64.ofNat m).mul (powerOfTen 0)).isFinite then
        some ((Binary64.ofNat m).mul (powerOfTen 0)) else none := by
    simp [binary64?, hleading, hwritten, hnegative, hzero]
  rw [hproduct] at hx
  split at hx
  next =>
    cases hx
    refine Binary64.le_truncate_of_le_magnitude (k := 63) ?_ ?_
    · exact Binary64.le_magnitude_mul (by decide) hlarge (by decide)
    · rw [Binary64.isNegative_mul, Binary64.ofNat, Binary64.isNegative_ofRatio]
      decide
  next => cases hx

theorem int64?_of_natural (h : numeral.natural? = some m) :
    numeral.int64? = if m < 0x8000000000000000 then some (m : Int) else none := by
  obtain ⟨hfraction, hexponent, hnegative, hwhole⟩ := natural?_eq_some_iff.mp h
  simp [int64?, isInteger, hfraction, hexponent, hnegative, hwhole]

theorem value?_of_natural (h : numeral.natural? = some m) (hm : m < 0x10000000000000000) :
    numeral.value? = some (.integer m) := by
  rw [value?, h, Option.filter_some, if_pos (decide_eq_true hm)]

/-- What fits both kinds of integers is the same integer either way. -/
theorem value?_of_int64? (h : numeral.int64? = some n) : numeral.value? = some (.integer n) := by
  cases hnatural : numeral.natural? with
  | some m =>
    rw [int64?_of_natural hnatural] at h
    split at h
    next hm =>
      cases h
      exact value?_of_natural hnatural (by omega)
    next => cases h
  | none => rw [value?, hnatural, Option.filter_none, h]

theorem value?_of_none (hnatural : numeral.natural?.filter (· < 0x10000000000000000) = none)
    (hint : numeral.int64? = none) : numeral.value? = numeral.binary64?.map .binary := by
  rw [value?, hnatural, hint]

theorem int64?_ofInt (n : Int) : (ofInt n).int64? =
    if -0x8000000000000000 ≤ n ∧ n < 0x8000000000000000 then some n else none := by
  have hdigits : ofDigits 10 (digitsOf 10 n.natAbs) = n.natAbs :=
    ofDigits_digitsOf (by decide) n.natAbs
  by_cases hn : n < 0
  · have hneg : -(n.natAbs : Int) = n := by omega
    rw [int64?, ofInt]
    simp only [isInteger, hdigits, Option.isNone_none, Bool.and_self, Bool.not_true,
      Bool.false_eq_true, if_false, decide_eq_true hn, if_true, hneg]
    split <;> split <;> first | rfl | omega
  · have hnatural : (ofInt n).natural? = some n.natAbs :=
      natural?_eq_some_iff.mpr ⟨rfl, rfl, decide_eq_false hn, hdigits⟩
    have habs : (n.natAbs : Int) = n := Int.natAbs_of_nonneg (Int.not_lt.mp hn)
    rw [int64?_of_natural hnatural, habs]
    split <;> split <;> first | rfl | omega

/-- Integers that a word of 64 bits holds, with sign or without, are kept as they are. -/
theorem value?_ofInt (hlow : -0x8000000000000000 ≤ n) (hhigh : n < 0x10000000000000000) :
    (ofInt n).value? = some (.integer n) := by
  have hdigits : ofDigits 10 (digitsOf 10 n.natAbs) = n.natAbs :=
    ofDigits_digitsOf (by decide) n.natAbs
  by_cases hn : n < 0
  · apply value?_of_int64?
    rw [int64?_ofInt, if_pos ⟨hlow, by omega⟩]
  · have habs : (n.natAbs : Int) = n := Int.natAbs_of_nonneg (Int.not_lt.mp hn)
    have hnatural : (ofInt n).natural? = some n.natAbs :=
      natural?_eq_some_iff.mpr ⟨rfl, rfl, decide_eq_false hn, hdigits⟩
    rw [value?_of_natural hnatural (by omega), habs]

/-! Signs -/

private theorem isNegative_powerOfTen (e : Nat) : (powerOfTen e).isNegative = false :=
  Binary64.isNegative_ofRatio false _ _

private theorem isNegative_scaleDown {x : Binary64} (h : x.isNegative = false) (e : Nat) :
    (scaleDown x e).isNegative = false := by
  fun_induction scaleDown x e with
  | case1 => exact h
  | case2 => rw [Binary64.isNegative_div, h, isNegative_powerOfTen, bne_self_eq_false]
  | case3 x e _ _ ih =>
    exact ih (by rw [Binary64.isNegative_div, h, isNegative_powerOfTen, bne_self_eq_false])

/-- A number that is written with a sign is a value with a sign. -/
theorem isNegative_binary64? {x : Binary64} (h : numeral.binary64? = some x) :
    x.isNegative = numeral.negative := by
  have hm : (Binary64.ofNat numeral.leading.significand).isNegative = false :=
    Binary64.isNegative_ofRatio false _ _
  have hscaled (e : Int) (m : Binary64) (hm : m.isNegative = false) :
      (if e < 0 then scaleDown m (-e).toNat else if m.isZero then m
        else if 308 < e then Binary64.infinity else m.mul (powerOfTen e.toNat)).isNegative =
        false := by
    split
    · exact isNegative_scaleDown hm _
    · split
      · exact hm
      · split
        · decide
        · rw [Binary64.isNegative_mul, hm, isNegative_powerOfTen, bne_self_eq_false]
  obtain ⟨y, hy, hx⟩ : ∃ y : Binary64, y.isNegative = false ∧
      (if y.isFinite then some (if numeral.negative then y.neg else y) else none) = some x :=
    ⟨_, hscaled _ _ hm, h⟩
  split at hx
  next hfinite =>
    cases hx
    cases hsign : numeral.negative with
    | true => rw [if_pos rfl, Binary64.isNegative_neg hfinite, hy, Bool.not_false]
    | false => exact hy
  next => cases hx

end Numeral
end MockServer.Json
