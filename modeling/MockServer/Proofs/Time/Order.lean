import MockServer.Time.Instant

/-!
The order of instants is total, and `le` and `before` are its weak and strict forms.
-/
namespace MockServer.Time.Instant

private theorem before_iff {a b : Instant} :
    a.before b = true ↔ a.seconds < b.seconds ∨ (a.seconds = b.seconds ∧ a.nanos < b.nanos) := by
  simp [before]

theorem le_iff {a b : Instant} :
    a.le b = true ↔ a.seconds < b.seconds ∨ (a.seconds = b.seconds ∧ a.nanos ≤ b.nanos) := by
  simp only [le, Bool.not_eq_true', ← Bool.not_eq_true, before_iff]
  omega

theorem le_refl (a : Instant) : a.le a = true := le_iff.mpr (Or.inr ⟨rfl, Nat.le_refl _⟩)

theorem le_trans {a b c : Instant} (hab : a.le b = true) (hbc : b.le c = true) :
    a.le c = true := by
  rw [le_iff] at *
  omega

theorem le_antisymm {a b : Instant} (hab : a.le b = true) (hba : b.le a = true) : a = b := by
  obtain ⟨s, n⟩ := a
  obtain ⟨s', n'⟩ := b
  rw [le_iff] at hab hba
  dsimp only at hab hba
  rw [mk.injEq]
  omega

theorem le_total (a b : Instant) : a.le b = true ∨ b.le a = true := by
  rw [le_iff, le_iff]
  omega

theorem before_eq_false_iff {a b : Instant} : a.before b = false ↔ b.le a = true := by
  rw [le, Bool.not_eq_true']

theorem le_of_before {a b : Instant} (hab : a.before b = true) : a.le b = true := by
  rw [before_iff] at hab
  rw [le_iff]
  omega

theorem before_of_le_of_ne {a b : Instant} (hab : a.le b = true) (hne : b ≠ a) :
    a.before b = true := by
  rw [← Bool.not_eq_false, before_eq_false_iff]
  exact fun hba => hne (le_antisymm hba hab)

theorem before_of_le_of_before {a b c : Instant} (hab : a.le b = true)
    (hbc : b.before c = true) : a.before c = true := by
  rw [le_iff] at hab
  rw [before_iff] at *
  omega

/-- Hours always lead to a later instant, also where the end of time is near. -/
theorem before_addHours {now : Instant} {hours : UInt64} (hne : hours ≠ 0)
    (hmax : now.before max = true) : now.before (now.addHours hours) = true := by
  have hpos : 0 < hours.toNat := Nat.pos_of_ne_zero fun h => hne (UInt64.toNat_inj.mp h)
  rw [addHours]
  cases hadd : (Span.ofHours? (Min.min (hours.toNat : Int) 0x7FFFFFFFFFFFFFFF)).bind now.add? with
  | none => exact hmax
  | some later =>
    obtain ⟨span, hspan, hlater⟩ := Option.bind_eq_some_iff.mp hadd
    simp only [Span.ofHours?, Option.ite_none_right_eq_some, Option.some.injEq] at hspan
    simp only [add?, Option.ite_none_right_eq_some, Option.some.injEq] at hlater
    obtain ⟨-, rfl⟩ := hspan
    obtain ⟨-, rfl⟩ := hlater
    rw [before_iff]
    refine .inl ?_
    simp only [Option.getD_some, addSeconds]
    omega

end MockServer.Time.Instant
