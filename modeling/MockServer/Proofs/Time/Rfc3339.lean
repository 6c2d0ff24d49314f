import MockServer.Proofs.Number.DecimalText
import MockServer.Proofs.Time.Calendar
import MockServer.Proofs.Time.Order
import MockServer.Time.Rfc3339

/-!
The text of an instant reads as the instant, part by part: each reader takes up what the writer of
its part wrote and leaves what follows. Leap seconds and years of more than four digits are left
out.
-/
namespace MockServer.Time.Rfc3339

open MockServer.Number MockServer.Text

variable {width n : Nat}

/-! Numbers -/

/-- Digits are read up to where they end, or up to as many as may be read. -/
theorem digits?_append {most : Nat} {digits : List Nat} {rest : List Char} (hne : digits ≠ [])
    (h : ∀ d ∈ digits, d < 10) (hlength : digits.length ≤ most)
    (hend : digits.length = most ∨ ∀ c ∈ rest.head?, digit? c = none) :
    digits? most (digits.map digitChar ++ rest) = some (digits, rest) := by
  have hdigits (d : Nat) (hd : d ∈ digits) : digit? (digitChar d) = some d :=
    Json.digit?_digitChar (h d hd)
  have hall : ∀ c ∈ digits.map digitChar, (digit? c).isSome = true := by
    intro c hc
    obtain ⟨d, hd, rfl⟩ := List.mem_map.mp hc
    rw [hdigits d hd]
    rfl
  have hstop : (rest.take (most - digits.length)).takeWhile (digit? · |>.isSome) = [] := by
    rcases hend with hfull | hend
    · rw [hfull, Nat.sub_self, List.take_zero, List.takeWhile_nil]
    · cases rest with
      | nil => rw [List.take_nil, List.takeWhile_nil]
      | cons c rest =>
        cases most - digits.length with
        | zero => rfl
        | succ more =>
          have hc : digit? c = none := hend c rfl
          rw [List.take_succ_cons, List.takeWhile_cons_of_neg]
          rw [hc]
          exact Bool.false_ne_true
  have hread : (digits.map digitChar).filterMap digit? = digits := by
    rw [List.filterMap_map]
    exact (List.filterMap_congr hdigits).trans List.filterMap_some
  have htaken : ((digits.map digitChar ++ rest).take most).takeWhile (digit? · |>.isSome) =
      digits.map digitChar := by
    rw [List.take_append, List.take_of_length_le (by rwa [List.length_map]), List.length_map,
      List.takeWhile_append_of_pos hall, hstop, List.append_nil]
  have hfilled : (digits.map digitChar).isEmpty = false := by
    rwa [List.isEmpty_eq_false_iff, Ne, List.map_eq_nil_iff]
  simp only [digits?, htaken, hfilled, Bool.false_eq_true, if_false, hread, List.drop_left]

/-- A number that fills a width is read with the zeros before it. -/
theorem digits?_paddedText (hwidth : 0 < width) (h : n < 10 ^ width) (rest : List Char) :
    ∃ digits, digits? width (paddedText width n ++ rest) = some (digits, rest) ∧
      ofDigits 10 digits = n := by
  obtain ⟨digits, htext, hlength, hlt, hvalue⟩ := exists_paddedText hwidth h
  have hne : digits ≠ [] := List.length_pos_iff.mp (hlength ▸ hwidth)
  refine ⟨digits, ?_, hvalue⟩
  rw [htext, digits?_append hne hlt (Nat.le_of_eq hlength) (.inl hlength)]

private theorem exists_cons_paddedText (hwidth : 0 < width) (h : n < 10 ^ width) :
    ∃ d text, paddedText width n = digitChar d :: text ∧ d < 10 := by
  obtain ⟨digits, htext, hlength, hlt, -⟩ := exists_paddedText hwidth h
  obtain ⟨d, digits, rfl⟩ := List.exists_cons_of_length_pos (hlength ▸ hwidth)
  exact ⟨d, _, htext, hlt d List.mem_cons_self⟩

private theorem trimStart_paddedText (hwidth : 0 < width) (h : n < 10 ^ width) (rest : List Char) :
    trimStart (paddedText width n ++ rest) = paddedText width n ++ rest := by
  obtain ⟨d, text, htext, hd⟩ := exists_cons_paddedText hwidth h
  have hblank : ∀ d : Fin 10, isBlank (digitChar d) = false := by decide
  rw [htext, List.cons_append]
  exact trimStart_cons_of_not_blank (hblank ⟨d, hd⟩) _

private theorem number?_paddedText (hwidth : 0 < width) (h : n < 10 ^ width) (rest : List Char) :
    number? width (paddedText width n ++ rest) = some (n, rest) := by
  obtain ⟨digits, hread, hvalue⟩ := digits?_paddedText hwidth h rest
  simp only [number?, trimStart_paddedText hwidth h, hread, Option.map_some, hvalue]

private theorem literal?_trimStart {c : Char} (h : isBlank c = false) (rest : List Char) :
    literal? c (trimStart (c :: rest)) = some rest := by
  rw [trimStart_cons_of_not_blank h, literal?, if_pos rfl]

/-! Dates -/

private theorem year?_yearText {y : Int} (hlow : 0 ≤ y) (hhigh : y ≤ 9999) (rest : List Char) :
    year? (yearText y ++ rest) = some (y, rest) := by
  have hn : y.toNat < 10 ^ 4 := by omega
  obtain ⟨digits, hread, hvalue⟩ := digits?_paddedText (by decide) hn rest
  obtain ⟨d, text, htext, hd⟩ := exists_cons_paddedText (by decide) hn
  have hsign : ∀ d : Fin 10, digitChar d ≠ '-' ∧ digitChar d ≠ '+' := by decide
  obtain ⟨hminus, hplus⟩ := hsign ⟨d, hd⟩
  have hyear : ((ofDigits 10 digits : Nat) : Int) = y := by omega
  rw [yearText, if_pos ⟨hlow, hhigh⟩, year?, trimStart_paddedText (by decide) hn]
  rw [htext, List.cons_append] at hread ⊢
  split
  next heq => exact absurd (List.cons.inj heq).1 hminus
  next heq => exact absurd (List.cons.inj heq).1 hplus
  next => simp only [hread, Option.map_some, hyear]

/-- A date of a year of four digits is read as it was written. -/
theorem date?_dateText {d : Date} (hvalid : d.isValid = true) (hlow : 0 ≤ d.year)
    (hhigh : d.year ≤ 9999) (hmonth : d.month < 10 ^ 2) (hday : d.day < 10 ^ 2) (rest : List Char) :
    date? (dateText d ++ rest) = some (d, rest) := by
  simp only [dateText, date?, List.append_assoc, List.cons_append, year?_yearText hlow hhigh,
    literal?_trimStart (c := '-') (by decide), number?_paddedText (by decide) hmonth,
    number?_paddedText (by decide) hday, Option.bind_eq_bind, Option.bind_some]
  rw [if_pos hvalid]

/-! Times -/

private theorem fraction?_point (hwidth : 0 < width) (hmost : width ≤ 9) (h : n < 10 ^ width) :
    fraction? ('.' :: (paddedText width n ++ ['Z'])) = some (n * 10 ^ (9 - width), ['Z']) := by
  obtain ⟨digits, htext, hlength, hlt, hvalue⟩ := exists_paddedText hwidth h
  have hne : digits ≠ [] := List.length_pos_iff.mp (hlength ▸ hwidth)
  have hread : digits? 9 (paddedText width n ++ ['Z']) = some (digits, ['Z']) := by
    rw [htext]
    refine digits?_append hne hlt (hlength ▸ hmost) (.inr fun c hc => ?_)
    obtain rfl : 'Z' = c := Option.some.inj hc
    decide
  simp only [fraction?, hread, Option.bind_eq_bind, Option.bind_some, hvalue, hlength]
  rfl

/-- The fraction of a second in each of its lengths. -/
theorem fraction?_fractionText {nanos : Nat} (h : nanos < 1000000000) :
    fraction? (fractionText nanos ++ ['Z']) = some (nanos, ['Z']) := by
  unfold fractionText
  split
  next hzero => rw [hzero]; rfl
  split
  next hmillis =>
    have hexact : nanos / 1000000 * 10 ^ (9 - 3) = nanos :=
      Nat.div_mul_cancel (Nat.dvd_of_mod_eq_zero hmillis)
    rw [List.cons_append, fraction?_point (by decide) (by decide) (by omega), hexact]
  split
  next hmicros =>
    have hexact : nanos / 1000 * 10 ^ (9 - 6) = nanos :=
      Nat.div_mul_cancel (Nat.dvd_of_mod_eq_zero hmicros)
    rw [List.cons_append, fraction?_point (by decide) (by decide) (by omega), hexact]
  next =>
    rw [List.cons_append, fraction?_point (by decide) (by decide) (by omega), Nat.sub_self,
      Nat.pow_zero, Nat.mul_one]

/-- The time of a day to the nanosecond. -/
theorem time?_timeText {ofDay nanos : Nat} (hday : ofDay < 86400) (hnanos : nanos < 1000000000) :
    time? (paddedText 2 (ofDay / 3600) ++ ':' :: (paddedText 2 (ofDay / 60 % 60) ++
        ':' :: (paddedText 2 (ofDay % 60) ++ (fractionText nanos ++ ['Z'])))) =
      some (ofDay, nanos, ['Z']) := by
  have hhour : ofDay / 3600 < 10 ^ 2 := by omega
  have hminute : ofDay / 60 % 60 < 10 ^ 2 := by omega
  have hsecond : ofDay % 60 < 10 ^ 2 := by omega
  have hrange : ofDay / 3600 < 24 ∧ ofDay / 60 % 60 < 60 ∧ ofDay % 60 ≤ 60 := by omega
  have hnoLeap : ofDay % 60 ≠ 60 := by omega
  have hsum : (ofDay / 3600 * 60 + ofDay / 60 % 60) * 60 + ofDay % 60 = ofDay := by omega
  simp only [time?, number?_paddedText (by decide) hhour,
    number?_paddedText (by decide) hminute,
    number?_paddedText (by decide) hsecond,
    literal?_trimStart (c := ':') (by decide), fraction?_fractionText hnanos,
    Option.bind_eq_bind, Option.bind_some, if_pos hrange, if_neg hnoLeap, hsum]

end Rfc3339

namespace Instant

/-- An instant of the years 0 to 9999 that lies in no leap second. -/
structure IsPlain (t : Instant) : Prop where
  year : 0 ≤ (Date.ofDays (t.seconds / 86400)).year ∧
    (Date.ofDays (t.seconds / 86400)).year ≤ 9999
  nanos : t.nanos < 1000000000

private theorem IsPlain.isValid_date {t : Instant} (h : t.IsPlain) :
    (Date.ofDays (t.seconds / 86400)).isValid = true := by
  have hyear := h.year
  rw [Date.year_ofDays] at hyear
  refine Date.isValid_ofDays ?_ ?_
  · exact Int.le_trans (by decide) hyear.1
  · exact Int.le_trans hyear.2 (by decide)

/-- These years are well inside the years that instants may have. -/
theorem IsPlain.inRange {t : Instant} (h : t.IsPlain) :
    min.le t = true ∧ t.le ⟨max.seconds, 1999999999⟩ = true := by
  have hdays := days_of_yearOf h.year.1 h.year.2
  have hfirst : yearStart 0 = -719528 := by decide
  have hlast : yearStart (9999 + 1) = 2932897 := by decide
  have hmin : min.seconds = -8334601228800 := rfl
  have hmax : max.seconds = 8210266876799 := rfl
  rw [le_iff, le_iff]
  dsimp only
  omega

end Instant

namespace Rfc3339

open MockServer.Number MockServer.Text

/-- The text of an instant outside leap seconds, with the second of the day taken apart. -/
theorem write_eq {t : Instant} (h : t.nanos < 1000000000) :
    write t = dateText (Date.ofDays (t.seconds / 86400)) ++ 'T' ::
      (paddedText 2 ((t.seconds % 86400).toNat / 3600) ++
        ':' :: (paddedText 2 ((t.seconds % 86400).toNat / 60 % 60) ++
          ':' :: (paddedText 2 ((t.seconds % 86400).toNat % 60) ++
            (fractionText t.nanos ++ ['Z'])))) := by
  have hwhole : t.nanos / 1000000000 = 0 ∧ t.nanos % 1000000000 = t.nanos := by omega
  simp only [write, secondText, hwhole, Nat.add_zero, List.append_assoc, List.cons_append]

/-- The text of an instant reads as the instant. -/
theorem read?_write {t : Instant} (h : t.IsPlain) : read? (write t) = some t := by
  have hlt := Date.ofDays_lt (t.seconds / 86400)
  have hdate := date?_dateText h.isValid_date h.year.1 h.year.2 hlt.1 hlt.2
  have hofDay : (t.seconds % 86400).toNat < 86400 := by omega
  have htime := time?_timeText hofDay h.nanos
  have hoffset : offset? (trimStart ['Z']) = some (0, []) := rfl
  have hsum : t.seconds / 86400 * 86400 + ((t.seconds % 86400).toNat : Int) - 0 = t.seconds := by
    omega
  simp only [read?, write_eq h.nanos, hdate, htime, hoffset, Date.toDays_ofDays, hsum, h.inRange,
    Option.bind_eq_bind, Option.bind_some]
  rfl

end MockServer.Time.Rfc3339
