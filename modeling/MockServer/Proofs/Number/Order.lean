import MockServer.Settings.Basic

/-!
The order of 64-bit values by place, and what a value that was brought into an interval can be.
Places tell values apart but for the two zeros and what is no number.
-/
namespace MockServer.Number.Binary64

variable {x y low high : Binary64}

private theorem place_zero : zero.place = 0 := by decide

theorem place_one : one.place = 1023 * stepSize := by decide

theorem lt_iff : x.lt y = true ↔ x.isNaN = false ∧ y.isNaN = false ∧ x.place < y.place := by
  simp [lt, and_assoc]

private theorem le_iff : x.le y = true ↔ x.isNaN = false ∧ y.isNaN = false ∧ x.place ≤ y.place := by
  simp [le, and_assoc]

/-- In an interval the place is the nearest one. -/
theorem place_clamp (hx : x.isNaN = false) (hlow : low.isNaN = false) (hhigh : high.isNaN = false)
    (h : low.place ≤ high.place) :
    (x.clamp low high).place = max low.place (min x.place high.place) := by
  unfold clamp
  split
  next hlt =>
    have hbelow := (lt_iff.mp hlt).2.2
    rw [Int.min_eq_left (by omega), Int.max_eq_left (by omega)]
  next hlt =>
    have hge : low.place ≤ x.place :=
      Int.not_lt.mp fun hcon => hlt (lt_iff.mpr ⟨hx, hlow, hcon⟩)
    split
    next hgt =>
      have habove := (lt_iff.mp hgt).2.2
      rw [Int.min_eq_right (by omega), Int.max_eq_right h]
    next hgt =>
      have hle : x.place ≤ high.place :=
        Int.not_lt.mp fun hcon => hgt (lt_iff.mpr ⟨hhigh, hx, hcon⟩)
      rw [Int.min_eq_left hle, Int.max_eq_right hge]

/-- A place that is not negative is the magnitude. -/
theorem magnitude_eq_place (h : 0 ≤ x.place) : (x.magnitude : Int) = x.place := by
  unfold place at h ⊢
  split
  · rw [if_pos ‹_›] at h
    omega
  · rfl

/-- No two values share a place above zero. -/
theorem eq_of_place_eq (hpos : 0 < x.place) (h : x.place = y.place) : x = y := by
  have hbits {z : Binary64} (hz : 0 < z.place) : (z.bits.toNat : Int) = z.place := by
    unfold place isNegative magnitude at hz ⊢
    split at hz
    · omega
    · rename_i hsign
      rw [if_neg hsign]
      simp only [decide_eq_true_eq] at hsign
      omega
  obtain ⟨a⟩ := x
  obtain ⟨b⟩ := y
  have hsame : (a.toNat : Int) = b.toNat := (hbits hpos).trans (h.trans (hbits (h ▸ hpos)).symm)
  rw [mk.injEq, ← UInt64.toNat_inj]
  omega

theorem scaledFloor_of_magnitude_eq_zero (h : x.magnitude = 0) (shift : Nat) :
    x.scaledFloor shift = 0 := by
  have hfield : x.magnitude / stepSize = 0 := by rw [h, Nat.zero_div]
  have hsignificand : x.significand = 0 := (if_pos hfield).trans h
  rw [scaledFloor, hsignificand, Nat.zero_mul, Nat.zero_div]

/-- A value below one has all its integer part, scaled by a word, below the number of words. -/
theorem scaledFloor_lt (h : x.magnitude < 1023 * stepSize) :
    x.scaledFloor 64 < 0x10000000000000000 := by
  have hstep : stepSize = 0x10000000000000 := rfl
  have hfield : x.magnitude / stepSize < 1023 :=
    Nat.div_lt_of_lt_mul (Nat.mul_comm 1023 stepSize ▸ h)
  have hsignificand : x.significand < 0x20000000000000 := by
    have hmod : x.magnitude % stepSize < stepSize := Nat.mod_lt _ (by decide)
    have hdiv := Nat.div_add_mod x.magnitude stepSize
    simp only [significand]
    split
    next hzero =>
      rw [hzero] at hdiv
      omega
    next => omega
  have hexponent : (x.exponent + (64 : Nat)).toNat ≤ 11 := by
    simp only [exponent]
    split <;> omega
  calc x.scaledFloor 64
      ≤ x.significand * Nat.pow 2 (x.exponent + (64 : Nat)).toNat := Nat.div_le_self _ _
    _ ≤ x.significand * 2 ^ 11 :=
        Nat.mul_le_mul_left _ (Nat.pow_le_pow_right (by decide) hexponent)
    _ < 0x20000000000000 * 2 ^ 11 := Nat.mul_lt_mul_of_pos_right hsignificand (by decide)
    _ = 0x10000000000000000 := by decide

end MockServer.Number.Binary64

namespace MockServer.GeneratorSettings

open MockServer.Number MockServer.Number.Binary64

variable {s : GeneratorSettings}

private theorem place_omitProbability (hs : s.optionalOmitProbability.isNaN = false) :
    s.omitProbability.place = max 0 (min s.optionalOmitProbability.place one.place) := by
  rw [omitProbability, hs, if_neg Bool.false_ne_true,
    place_clamp hs (by decide) (by decide) (by decide), place_zero]

/-- Whatever is set, the probability that counts lies between zero and one. -/
theorem omitProbability_bounds (s : GeneratorSettings) :
    0 ≤ s.omitProbability.place ∧ s.omitProbability.place ≤ one.place := by
  cases hs : s.optionalOmitProbability.isNaN with
  | true =>
    rw [omitProbability, if_pos hs]
    decide
  | false =>
    rw [place_omitProbability hs]
    have := place_one
    unfold stepSize at this
    omega

theorem magnitude_omitProbability (h : s.optionalOmitProbability.le zero = true) :
    s.omitProbability.magnitude = 0 := by
  obtain ⟨hs, -, hle⟩ := le_iff.mp h
  have hplace := place_omitProbability hs
  have hmagnitude := magnitude_eq_place (omitProbability_bounds s).1
  rw [place_zero] at hle
  omega

theorem omitProbability_eq_one (h : one.le s.optionalOmitProbability = true) :
    s.omitProbability = one := by
  obtain ⟨-, hs, hle⟩ := le_iff.mp h
  have hone : 0 < one.place := by decide
  have hplace : s.omitProbability.place = one.place := by
    rw [place_omitProbability hs]
    omega
  exact eq_of_place_eq (hplace ▸ hone) hplace

end MockServer.GeneratorSettings
