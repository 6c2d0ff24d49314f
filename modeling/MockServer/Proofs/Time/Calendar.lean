import MockServer.Time.Calendar

/-!
Dates and day numbers are two forms of the same thing: the date of a day number exists, and it has
that number.
-/
namespace MockServer.Time

private theorem totalLength_cons (length : Nat) (later : List Nat) :
    totalLength (length :: later) = length + totalLength later := by
  rw [totalLength, List.foldl_cons, Nat.add_comm 0 length, List.foldl_assoc]
  rfl

/-- A number of days falls on a day of one of the months that are long enough for it together. -/
theorem exists_monthAndDay (month : Nat) {offset : Nat} {lengths : List Nat}
    (h : offset < totalLength lengths) :
    ∃ i day, monthAndDay month offset lengths = (month + i, day + 1) ∧ i < lengths.length ∧
      day < lengths.getD i 0 ∧ totalLength (lengths.take i) + day = offset := by
  induction lengths generalizing month offset with
  | nil => exact absurd h (Nat.not_lt_zero offset)
  | cons length later ih =>
    rw [monthAndDay]
    split
    next hfirst => exact ⟨0, offset, rfl, Nat.succ_pos _, hfirst, Nat.zero_add offset⟩
    next hlater =>
      rw [totalLength_cons] at h
      have hoffset : offset - length < totalLength later := by omega
      obtain ⟨i, day, heq, hi, hday, hsum⟩ := ih (month + 1) hoffset
      refine ⟨i + 1, day, ?_, Nat.succ_lt_succ hi, hday, ?_⟩
      · rw [heq, Nat.add_assoc, Nat.add_comm 1 i]
      · rw [List.take_succ_cons, totalLength_cons]
        omega

private theorem monthLength_le (y : Int) (i : Nat) : (monthLengths y).getD i 0 ≤ 31 := by
  have hall : ∀ length ∈ monthLengths y, length ≤ 31 := by
    unfold monthLengths
    split <;> decide
  rw [List.getD_eq_getElem?_getD]
  cases hi : (monthLengths y)[i]? with
  | none => exact Nat.zero_le 31
  | some length => exact hall length (List.mem_of_getElem? hi)

namespace Date

/-- The date of a day number: its year, and the month and the day that it falls on there. -/
theorem exists_ofDays (n : Int) :
    ∃ i day, ofDays n = ⟨yearOf n, i + 1, day + 1⟩ ∧ i < 12 ∧
      day < (monthLengths (yearOf n)).getD i 0 ∧
      yearStart (yearOf n) + totalLength ((monthLengths (yearOf n)).take i) + day = n := by
  have hyear := yearStart_yearOf n
  have hlong := sum_monthLengths (yearOf n)
  have hoffset : (n - yearStart (yearOf n)).toNat < totalLength (monthLengths (yearOf n)) := by
    omega
  obtain ⟨i, day, heq, hi, hday, hsum⟩ := exists_monthAndDay 1 hoffset
  refine ⟨i, day, ?_, hi, hday, by omega⟩
  rw [ofDays, heq, Nat.add_comm 1 i]

theorem year_ofDays (n : Int) : (ofDays n).year = yearOf n := rfl

theorem toDays_ofDays (n : Int) : (ofDays n).toDays = n := by
  obtain ⟨i, day, heq, -, -, hsum⟩ := exists_ofDays n
  rw [heq, toDays]
  exact hsum

/-- The date of a day number exists. Only its year can be out of range. -/
theorem isValid_ofDays {n : Int} (hlow : minYear ≤ yearOf n) (hhigh : yearOf n ≤ maxYear) :
    (ofDays n).isValid = true := by
  obtain ⟨i, day, heq, hi, hday, -⟩ := exists_ofDays n
  simp only [heq, isValid, Nat.add_sub_cancel, Bool.and_eq_true, decide_eq_true_eq]
  omega

/-- Month and day are written with two digits. -/
theorem ofDays_lt (n : Int) : (ofDays n).month < 100 ∧ (ofDays n).day < 100 := by
  obtain ⟨i, day, heq, hi, hday, -⟩ := exists_ofDays n
  have hmonth := monthLength_le (yearOf n) i
  rw [heq]
  dsimp only
  omega

end Date

private theorem yearStart_mono {x y : Int} (h : x ≤ y) : yearStart x ≤ yearStart y := by
  unfold yearStart
  omega

/-- The days of some years are those from the start of the first up to the start of the next. -/
theorem days_of_yearOf {n low high : Int} (hlow : low ≤ yearOf n) (hhigh : yearOf n ≤ high) :
    yearStart low ≤ n ∧ n < yearStart (high + 1) := by
  have hyear := yearStart_yearOf n
  have hfirst := yearStart_mono hlow
  have hlast := yearStart_mono (Int.add_le_add_right hhigh 1)
  omega

end MockServer.Time
