import Mathlib.Data.Rat.Cast.Order
import Mathlib.Tactic.Ring
import MockServer.Number.Binary64

/-!
Exact values of 64-bit numbers, and rounding from below: a quotient that is at least a power of two
rounds to a value that is.
-/
namespace MockServer.Number.Binary64

variable {x : Binary64} {num den k : Nat} {n : Int}

/-! Exact values -/

/-- The value of a finite number. -/
def rational (x : Binary64) : ℚ :=
  if x.isNegative then -(x.ratio.1 / x.ratio.2 : ℚ) else x.ratio.1 / x.ratio.2

private theorem ratio_snd_pos (x : Binary64) : 0 < x.ratio.2 := Nat.pow_pos (by decide)

private theorem scaledFloor_zero (x : Binary64) : x.scaledFloor 0 = x.ratio.1 / x.ratio.2 := by
  rw [scaledFloor, Int.natCast_zero, Int.add_zero, ratio]

private theorem div_eq_int_iff (hden : 0 < den) :
    (num / den : ℚ) = n ↔ num % den = 0 ∧ ((num / den : Nat) : Int) = n := by
  have hne : (den : ℚ) ≠ 0 := Nat.cast_ne_zero.mpr (Nat.ne_of_gt hden)
  have hcast : (num / den : ℚ) = n ↔ (num : Int) = n * den := by
    rw [div_eq_iff hne]
    norm_cast
  rw [hcast]
  constructor
  · intro h
    have hdvd : den ∣ num := Int.natCast_dvd_natCast.mp ⟨n, by rw [h, Int.mul_comm]⟩
    refine ⟨Nat.mod_eq_zero_of_dvd hdvd, ?_⟩
    rw [Int.natCast_ediv, h, Int.mul_ediv_cancel _ (by omega)]
  · rintro ⟨hmod, rfl⟩
    exact_mod_cast (Nat.div_mul_cancel (Nat.dvd_of_mod_eq_zero hmod)).symm

/-- A value is an integer exactly when it has no fraction and the integer is its integer part. -/
theorem rational_eq_int_iff :
    x.isFinite = true ∧ x.rational = n ↔ x.isIntegral = true ∧ x.truncate = n := by
  have hnegative :
      -(x.ratio.1 / x.ratio.2 : ℚ) = n ↔ (x.ratio.1 / x.ratio.2 : ℚ) = (-n : Int) := by
    rw [neg_eq_iff_eq_neg, Int.cast_neg]
  rw [isIntegral, Bool.and_eq_true, beq_iff_eq, and_assoc, and_congr_right_iff]
  intro _
  rw [rational, truncate, scaledFloor_zero]
  split
  · rw [hnegative, div_eq_int_iff x.ratio_snd_pos]
    omega
  · rw [div_eq_int_iff x.ratio_snd_pos]

/-! Lower bounds -/

private theorem toNat_bits_ofMagnitude {m : Nat} (h : m ≤ infiniteMagnitude) (negative : Bool) :
    m < 0x8000000000000000 ∧
      (ofMagnitude negative m).bits.toNat = (if negative then 0x8000000000000000 else 0) + m := by
  have hm : m < 0x8000000000000000 := Nat.lt_of_le_of_lt h (by decide)
  have hsize : UInt64.size = 0x10000000000000000 := rfl
  refine ⟨hm, ?_⟩
  unfold ofMagnitude
  split
  · exact UInt64.toNat_ofNat_of_lt' (by omega)
  · rw [Nat.zero_add]
    exact UInt64.toNat_ofNat_of_lt' (by omega)

private theorem magnitude_ofMagnitude {m : Nat} (h : m ≤ infiniteMagnitude) (negative : Bool) :
    (ofMagnitude negative m).magnitude = m := by
  obtain ⟨hm, hbits⟩ := toNat_bits_ofMagnitude h negative
  rw [magnitude, hbits]
  split <;> omega

private theorem isNegative_ofMagnitude {m : Nat} (h : m ≤ infiniteMagnitude) (negative : Bool) :
    (ofMagnitude negative m).isNegative = negative := by
  obtain ⟨hm, hbits⟩ := toNat_bits_ofMagnitude h negative
  rw [isNegative, hbits]
  cases negative with
  | true => exact decide_eq_true (Nat.le_add_right _ _)
  | false => exact decide_eq_false (by rw [if_neg Bool.false_ne_true]; omega)

theorem isNegative_ofRatio (negative : Bool) (num den : Nat) :
    (ofRatio negative num den).isNegative = negative := by
  unfold ofRatio
  split
  · exact isNegative_ofMagnitude (Nat.zero_le _) negative
  · exact isNegative_ofMagnitude (Nat.min_le_right _ _) negative

private theorem le_roundHalfEven (num den : Nat) : num / den ≤ roundHalfEven num den := by
  unfold roundHalfEven
  dsimp only
  split
  · exact Nat.le_refl _
  · split <;> omega

private theorem ne_zero_of_pow_le (hden : 0 < den) (h : 2 ^ k * den ≤ num) : num ≠ 0 := by
  have := Nat.mul_pos (Nat.two_pow_pos k) hden
  omega

/-- The exponent of a quotient that is at least `2 ^ k` for a natural `k`. The quotient is not
below the power of two that the exponent stands for, 52 places up. -/
theorem exists_exponentFor (hden : 0 < den) (h : 2 ^ k * den ≤ num) :
    ∃ e : Nat, k ≤ e ∧ exponentFor num den = (e : Int) - 52 ∧ 2 ^ e * den ≤ num := by
  have hnum := ne_zero_of_pow_le hden h
  have hnumLow := Nat.log2_self_le hnum
  have hdenLow := Nat.log2_self_le (Nat.ne_of_gt hden)
  have hdenHigh := Nat.lt_log2_self (n := den)
  have hguess : k + Nat.log2 den ≤ Nat.log2 num := by
    rw [Nat.le_log2 hnum, Nat.pow_add]
    exact Nat.le_trans (Nat.mul_le_mul_left _ hdenLow) h
  obtain ⟨more, hmore⟩ := Nat.exists_eq_add_of_le hguess
  have hint : ((Nat.log2 num : Int) - Nat.log2 den) = ((k + more : Nat) : Int) := by omega
  have hexponent : exponentFor num den =
      max ((if den * 2 ^ (k + more) ≤ num then ((k + more : Nat) : Int) else (k + more : Nat) - 1)
        - 52) (-1074) := by
    have hneg : (-((k + more : Nat) : Int)).toNat = 0 := by omega
    simp only [exponentFor, hint, hneg, Int.toNat_natCast, Nat.pow_eq, Nat.pow_zero, Nat.mul_one,
      decide_eq_true_eq]
  rw [hexponent]
  by_cases hreaches : den * 2 ^ (k + more) ≤ num
  · rw [if_pos hreaches]
    exact ⟨k + more, Nat.le_add_right _ _, by omega, by rwa [Nat.mul_comm]⟩
  · -- The guess is one too high, so it is not `k` itself.
    have hpos : more ≠ 0 := by
      rintro rfl
      exact hreaches (by rwa [Nat.add_zero, Nat.mul_comm])
    rw [if_neg hreaches]
    refine ⟨k + more - 1, by omega, by omega, ?_⟩
    calc 2 ^ (k + more - 1) * den
        ≤ 2 ^ (k + more - 1) * 2 ^ (Nat.log2 den + 1) :=
          Nat.mul_le_mul_left _ (Nat.le_of_lt hdenHigh)
      _ = 2 ^ Nat.log2 num := by
          rw [← Nat.pow_add]
          congr 1
          omega
      _ ≤ num := hnumLow

/-- A quotient that is at least `2 ^ k` does not round below it. -/
theorem le_magnitude_ofRatio (hk : k ≤ 1023) (hden : 0 < den) (h : 2 ^ k * den ≤ num)
    (negative : Bool) : (k + 1023) * stepSize ≤ (ofRatio negative num den).magnitude := by
  have hnum := ne_zero_of_pow_le hden h
  obtain ⟨e, hke, hexponent, he⟩ := exists_exponentFor hden h
  have hstep : stepSize = 2 ^ 52 := by decide
  have hfloor : stepSize ≤
      num * 2 ^ (-((e : Int) - 52)).toNat / (den * 2 ^ ((e : Int) - 52).toNat) := by
    rw [Nat.le_div_iff_mul_le (Nat.mul_pos hden (Nat.two_pow_pos _)), hstep]
    have hpow : 52 + ((e : Int) - 52).toNat = e + (-((e : Int) - 52)).toNat := by omega
    calc 2 ^ 52 * (den * 2 ^ ((e : Int) - 52).toNat)
        = 2 ^ (52 + ((e : Int) - 52).toNat) * den := by rw [Nat.pow_add]; ring
      _ = 2 ^ e * den * 2 ^ (-((e : Int) - 52)).toNat := by rw [hpow, Nat.pow_add]; ring
      _ ≤ num * 2 ^ (-((e : Int) - 52)).toNat := Nat.mul_le_mul_right _ he
  have hround := Nat.le_trans hfloor (le_roundHalfEven _ _)
  rw [ofRatio, if_neg (by omega), hexponent, magnitude_ofMagnitude (Nat.min_le_right _ _)]
  refine Nat.le_min.mpr ⟨?_, Nat.mul_le_mul_right _ (by omega)⟩
  have hsum : ((e : Int) - 52 + 1074).toNat = e + 1022 := by omega
  rw [hsum]
  calc (k + 1023) * stepSize
      ≤ (e + 1023) * stepSize := Nat.mul_le_mul_right _ (by omega)
    _ = stepSize + (e + 1022) * stepSize := by ring
    _ ≤ _ := Nat.add_le_add_right hround _

/-- A value whose magnitude is at least that of `2 ^ k` is at least `2 ^ k`. -/
theorem le_ratio_of_le_magnitude (h : (k + 1023) * stepSize ≤ x.magnitude) :
    2 ^ k * x.ratio.2 ≤ x.ratio.1 := by
  have hstep : stepSize = 2 ^ 52 := by decide
  have hfield : k + 1023 ≤ x.magnitude / stepSize :=
    (Nat.le_div_iff_mul_le (by decide)).mpr h
  have hsignificand : 2 ^ 52 ≤ x.significand := by
    rw [significand, if_neg (by omega), ← hstep]
    exact Nat.le_add_right _ _
  have hexponent : (k : Int) - 52 ≤ x.exponent := by
    rw [exponent, if_neg (by omega)]
    omega
  have hpow : k + (-x.exponent).toNat ≤ 52 + x.exponent.toNat := by omega
  calc 2 ^ k * x.ratio.2
      = 2 ^ (k + (-x.exponent).toNat) := (Nat.pow_add _ _ _).symm
    _ ≤ 2 ^ (52 + x.exponent.toNat) := Nat.pow_le_pow_right (by decide) hpow
    _ = 2 ^ 52 * 2 ^ x.exponent.toNat := Nat.pow_add _ _ _
    _ ≤ x.significand * 2 ^ x.exponent.toNat := Nat.mul_le_mul_right _ hsignificand

theorem le_truncate_of_le_magnitude (h : (k + 1023) * stepSize ≤ x.magnitude)
    (hs : x.isNegative = false) : (2 ^ k : Nat) ≤ x.truncate := by
  rw [truncate, hs, scaledFloor_zero, if_neg Bool.false_ne_true, Int.ofNat_le,
    Nat.le_div_iff_mul_le x.ratio_snd_pos]
  exact le_ratio_of_le_magnitude h

theorem isNegative_mul (x y : Binary64) :
    (x.mul y).isNegative = (x.isNegative != y.isNegative) :=
  isNegative_ofRatio _ _ _

theorem isNegative_div (x y : Binary64) :
    (x.div y).isNegative = (x.isNegative != y.isNegative) :=
  isNegative_ofRatio _ _ _

theorem isNegative_neg (h : x.isFinite = true) : x.neg.isNegative = !x.isNegative :=
  isNegative_ofMagnitude (Nat.le_of_lt (of_decide_eq_true h)) _

/-- A factor of at least one does not take a product below a power of two. -/
theorem le_magnitude_mul {y : Binary64} (hk : k ≤ 1023)
    (h : (k + 1023) * stepSize ≤ x.magnitude) (hy : y.ratio.2 ≤ y.ratio.1) :
    (k + 1023) * stepSize ≤ (x.mul y).magnitude := by
  refine le_magnitude_ofRatio hk (Nat.mul_pos x.ratio_snd_pos y.ratio_snd_pos) ?_ _
  rw [← Nat.mul_assoc]
  exact Nat.mul_le_mul (le_ratio_of_le_magnitude h) hy

end MockServer.Number.Binary64
