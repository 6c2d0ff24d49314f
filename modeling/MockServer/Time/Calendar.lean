/-!
The Gregorian calendar, extended to all years: dates and day numbers since 1970-01-01.
-/
namespace MockServer.Time

structure Date where
  year : Int
  month : Nat
  day : Nat
  deriving DecidableEq, Repr

def isLeapYear (y : Int) : Bool := y % 4 == 0 && (y % 100 != 0 || y % 400 == 0)

/-- The lengths of the months of a year in order. -/
def monthLengths (y : Int) : List Nat :=
  [31, if isLeapYear y then 29 else 28, 31, 30, 31, 30, 31, 31, 30, 31, 30, 31]

/-- The length of some months together. -/
def totalLength (lengths : List Nat) : Nat := lengths.foldl (· + ·) 0

/-- The day number of the first of January. Year 0 starts 719528 days before 1970. -/
def yearStart (y : Int) : Int :=
  365 * y + (y + 3) / 4 - (y + 99) / 100 + (y + 399) / 400 - 719528

/-- The year of a day number. The mean length of a year gives it up to one. -/
def yearOf (days : Int) : Int :=
  let guess := 400 * (days + 719528) / 146097
  if days < yearStart guess then guess - 1
  else if yearStart (guess + 1) ≤ days then guess + 1
  else guess

/-- The month, counted on from `month`, and the day for a number of days after its first. -/
def monthAndDay (month : Nat) (offset : Nat) : List Nat → Nat × Nat
  | [] => (month, offset + 1)
  | length :: later =>
    if offset < length then (month, offset + 1) else monthAndDay (month + 1) (offset - length) later

namespace Date

def ofDays (days : Int) : Date :=
  let year := yearOf days
  let (month, day) := monthAndDay 1 (days - yearStart year).toNat (monthLengths year)
  ⟨year, month, day⟩

def toDays (d : Date) : Int :=
  yearStart d.year + totalLength ((monthLengths d.year).take (d.month - 1)) + (d.day - 1 : Nat)

/-- The years that instants may have. -/
def minYear : Int := -262143
def maxYear : Int := 262142

/-- Whether the date exists and its year is in range. -/
def isValid (d : Date) : Bool :=
  minYear ≤ d.year && d.year ≤ maxYear && 1 ≤ d.month && d.month ≤ 12 && 1 ≤ d.day &&
    d.day ≤ (monthLengths d.year).getD (d.month - 1) 0

end Date

private theorem isLeapYear_iff_yearStart (y : Int) :
    yearStart (y + 1) - yearStart y = if isLeapYear y then 366 else 365 := by
  simp only [yearStart, isLeapYear, Bool.and_eq_true, Bool.or_eq_true, beq_iff_eq, bne_iff_ne]
  split <;> omega

/-- A year is as long as its months. -/
theorem sum_monthLengths (y : Int) :
    (totalLength (monthLengths y) : Int) = yearStart (y + 1) - yearStart y := by
  rw [isLeapYear_iff_yearStart]
  cases h : isLeapYear y <;> simp [totalLength, monthLengths, h]

/-- The first day of a year is less than two days off the mean length of a year. -/
theorem yearStart_bounds (y : Int) :
    146097 * y - 400 ≤ 400 * (yearStart y + 719528) ∧
      400 * (yearStart y + 719528) ≤ 146097 * y + 700 := by
  simp only [yearStart]; omega

/-- A day lies in its year. -/
theorem yearStart_yearOf (days : Int) :
    yearStart (yearOf days) ≤ days ∧ days < yearStart (yearOf days + 1) := by
  have h0 := yearStart_bounds (400 * (days + 719528) / 146097 - 1)
  have h2 := yearStart_bounds (400 * (days + 719528) / 146097 + 1 + 1)
  simp only [yearOf]
  split
  · rename_i h
    exact ⟨by omega, by rw [Int.sub_add_cancel]; exact h⟩
  · split <;> omega

end MockServer.Time
