import MockServer.Proofs.Time.Order

/-!
Hours after a clock reading. Hours may be out of the range of spans and sums out of the range of
instants; in each case the last instant stands for the sum, as if it were cut only at the end.
-/
namespace MockServer.Time.Instant

/-- An instant in range with time left after it. -/
structure IsReading (t : Instant) : Prop where
  inRange : min.le t = true
  notLast : t.before max = true

/-- The one of two instants that comes first. -/
def earlier (a b : Instant) : Instant := if a.le b then a else b

variable {a b c now : Instant}

private theorem earlier_of_le (h : a.le b = true) : earlier a b = a := if_pos h

private theorem earlier_of_not_le (h : ¬ a.le b = true) : earlier a b = b := if_neg h

private theorem earlier_le_left : (earlier a b).le a = true := by
  by_cases h : a.le b = true
  · rw [earlier_of_le h]
    exact le_refl a
  · rw [earlier_of_not_le h]
    exact (le_total a b).resolve_left h

private theorem earlier_le_right : (earlier a b).le b = true := by
  by_cases h : a.le b = true
  · rw [earlier_of_le h]
    exact h
  · rw [earlier_of_not_le h]
    exact le_refl b

private theorem le_earlier (hb : a.le b = true) (hc : a.le c = true) :
    a.le (earlier b c) = true := by
  unfold earlier
  split
  · exact hb
  · exact hc

private theorem earlier_mono (hac : a.le c = true) : (earlier a b).le (earlier c b) = true :=
  le_earlier (le_trans earlier_le_left hac) earlier_le_right

private theorem addSeconds_le_addSeconds {s u : Int} (hab : a.le b = true) (hsu : s ≤ u) :
    (a.addSeconds s).le (b.addSeconds u) = true := by
  rw [le_iff] at *
  simp only [addSeconds]
  omega

/-- From a reading on, a span whose hours are too many would lead past the last instant. -/
theorem not_le_max_of_ofHours? {hours : Int} (hnow : min.le now = true) (hpos : 0 ≤ hours)
    (hspan : Span.ofHours? hours = none) : ¬ (now.addSeconds (hours * 3600)).le max = true := by
  have hmin : min.seconds = -8334601228800 := rfl
  have hmax : max.seconds = 8210266876799 := rfl
  have hlong : ¬ (hours * 3600 * 1000).natAbs ≤ 0x7FFFFFFFFFFFFFFF := by
    simpa only [Span.ofHours?, ite_eq_right_iff, reduceCtorEq, imp_false] using hspan
  rw [le_iff] at *
  simp only [addSeconds]
  omega

/-- The sum is exact unless the last instant comes first. -/
theorem addHours_eq_earlier (hnow : min.le now = true) (hours : UInt64) :
    now.addHours hours = earlier (now.addSeconds (hours.toNat * 3600)) max := by
  have hword : hours.toNat < 0x10000000000000000 := hours.toNat_lt
  -- hours above 63 bits are too many for a span, before and after they are cut
  have hcut : Span.ofHours? (Min.min (hours.toNat : Int) 0x7FFFFFFFFFFFFFFF) =
      Span.ofHours? (hours.toNat : Int) := by
    rcases Int.le_total (hours.toNat : Int) 0x7FFFFFFFFFFFFFFF with h | h
    · rw [Int.min_eq_left h]
    · rw [Int.min_eq_right h, Span.ofHours?, Span.ofHours?, if_neg (by decide), if_neg (by omega)]
  rw [addHours, hcut]
  cases hspan : Span.ofHours? (hours.toNat : Int) with
  | none =>
    rw [earlier_of_not_le (not_le_max_of_ofHours? hnow (Int.natCast_nonneg _) hspan)]
    rfl
  | some span =>
    simp only [Span.ofHours?, Option.ite_none_right_eq_some, Option.some.injEq] at hspan
    obtain ⟨-, rfl⟩ := hspan
    have hlater : min.le (now.addSeconds (hours.toNat * 3600)) = true := by
      refine le_trans hnow ?_
      rw [le_iff]
      simp only [addSeconds]
      omega
    rw [Option.bind_some, add?, earlier, hlater, Bool.true_and]
    split <;> rfl

/-- A later reading and more hours lead to no earlier instant, also across the limits. -/
theorem addHours_mono {h k : UInt64} (ha : min.le a = true) (hab : a.le b = true) (hhk : h ≤ k) :
    (a.addHours h).le (b.addHours k) = true := by
  have hle : h.toNat ≤ k.toNat := UInt64.le_iff_toNat_le.mp hhk
  rw [addHours_eq_earlier ha, addHours_eq_earlier (le_trans ha hab)]
  exact earlier_mono (addSeconds_le_addSeconds hab (by omega))

end MockServer.Time.Instant
