import MockServer.Number.Digits
import MockServer.Text.Blank
import MockServer.Time.Instant

/-!
The text form of instants, by RFC 3339. Writing is always in Universal Time. Reading is lenient:
any offset, a blank or a small letter for `T`, short numbers, and blanks between the parts.
-/
namespace MockServer.Time.Rfc3339

open MockServer.Number MockServer.Text

/-- Four digits, or a sign and at least four digits outside the years 0 to 9999. -/
def yearText (y : Int) : List Char :=
  if 0 ≤ y ∧ y ≤ 9999 then paddedText 4 y.toNat
  else (if y < 0 then '-' else '+') :: paddedText 4 y.natAbs

def dateText (d : Date) : List Char :=
  yearText d.year ++ '-' :: (paddedText 2 d.month ++ '-' :: paddedText 2 d.day)

/-- The date and the time to the second. A leap second is second 60. -/
def secondText (t : Instant) : List Char :=
  let ofDay := (t.seconds % 86400).toNat
  let second := ofDay % 60 + t.nanos / 1000000000
  dateText (Date.ofDays (t.seconds / 86400)) ++ 'T' :: (paddedText 2 (ofDay / 3600) ++
    ':' :: (paddedText 2 (ofDay / 60 % 60) ++ ':' :: paddedText 2 second))

/-- A fraction of no, three, six or nine digits, the fewest that are exact. -/
def fractionText (nanos : Nat) : List Char :=
  if nanos = 0 then []
  else if nanos % 1000000 = 0 then '.' :: paddedText 3 (nanos / 1000000)
  else if nanos % 1000 = 0 then '.' :: paddedText 6 (nanos / 1000)
  else '.' :: paddedText 9 nanos

/-- The exact text of an instant. -/
def write (t : Instant) : List Char :=
  secondText t ++ (fractionText (t.nanos % 1000000000) ++ ['Z'])

/-- The text cut to milliseconds, always with three digits. -/
def writeMillis (t : Instant) : List Char :=
  secondText t ++ '.' :: (paddedText 3 (t.nanos % 1000000000 / 1000000) ++ ['Z'])

/-- One to `most` digits at the start of a text, and what follows them. -/
def digits? (most : Nat) (s : List Char) : Option (List Nat × List Char) :=
  let digits := (s.take most).takeWhile (digit? · |>.isSome)
  if digits.isEmpty then none else some (digits.filterMap digit?, s.drop digits.length)

/-- A number of at most `most` digits, after blanks. -/
def number? (most : Nat) (s : List Char) : Option (Nat × List Char) :=
  (digits? most (trimStart s)).map fun (ds, rest) => (ofDigits 10 ds, rest)

def literal? (c : Char) (s : List Char) : Option (List Char) :=
  match s with
  | d :: rest => if d = c then some rest else none
  | [] => none

/-- A year of up to four digits, or of any length after a sign. -/
def year? (s : List Char) : Option (Int × List Char) :=
  match trimStart s with
  | '-' :: rest => (digits? rest.length rest).map fun (ds, r) => (-(ofDigits 10 ds : Int), r)
  | '+' :: rest => (digits? rest.length rest).map fun (ds, r) => ((ofDigits 10 ds : Int), r)
  | rest => (digits? 4 rest).map fun (ds, r) => ((ofDigits 10 ds : Int), r)

def date? (s : List Char) : Option (Date × List Char) := do
  let (year, s) ← year? s
  let s ← literal? '-' (trimStart s)
  let (month, s) ← number? 2 s
  let s ← literal? '-' (trimStart s)
  let (day, s) ← number? 2 s
  let date : Date := ⟨year, month, day⟩
  if date.isValid then some (date, s) else none

/-- A fraction of a second in nanoseconds; digits after the ninth are dropped. -/
def fraction? (s : List Char) : Option (Nat × List Char) :=
  match s with
  | '.' :: rest => do
    let (ds, rest) ← digits? 9 rest
    some (ofDigits 10 ds * Nat.pow 10 (9 - ds.length), rest.dropWhile (digit? · |>.isSome))
  | _ => some (0, s)

/-- The second of the day and the nanoseconds after it. Any minute may have a second 60. -/
def time? (s : List Char) : Option (Nat × Nat × List Char) := do
  let (hour, s) ← number? 2 s
  let s ← literal? ':' (trimStart s)
  let (minute, s) ← number? 2 s
  let s ← literal? ':' (trimStart s)
  let (second, s) ← number? 2 s
  let (nanos, s) ← fraction? s
  if hour < 24 ∧ minute < 60 ∧ second ≤ 60 then
    let minutes := hour * 60 + minute
    if second = 60 then some (minutes * 60 + 59, 1000000000 + nanos, s)
    else some (minutes * 60 + second, nanos, s)
  else none

def twoDigits? (s : List Char) : Option (Nat × List Char) :=
  match s with
  | a :: b :: rest => do some ((← digit? a) * 10 + (← digit? b), rest)
  | _ => none

/-- Hours and minutes of an offset in seconds. Colons and blanks may stand between them. -/
def offsetSeconds? (s : List Char) : Option (Nat × List Char) := do
  let (hours, s) ← twoDigits? s
  let (minutes, s) ← twoDigits? (s.dropWhile fun c => c == ':' || isBlank c)
  if minutes < 60 then some (hours * 3600 + minutes * 60, s) else none

/-- The offset from Universal Time in seconds; U+2212 is a minus sign as well. -/
def offset? (s : List Char) : Option (Int × List Char) :=
  if (s.take 3).map Char.toUpper = ['U', 'T', 'C'] then some (0, s.drop 3)
  else match s with
    | 'Z' :: rest | 'z' :: rest => some (0, rest)
    | '+' :: rest => (offsetSeconds? rest).map fun (n, r) => ((n : Int), r)
    | '-' :: rest | '\u2212' :: rest => (offsetSeconds? rest).map fun (n, r) => (-(n : Int), r)
    | _ => none

/-- The instant that a whole text stands for. Offsets are below one day, and the instant must be in
range after the offset is taken off. -/
def read? (s : List Char) : Option Instant := do
  let (date, s) ← date? s
  let s ← match s with
    | 'T' :: rest | 't' :: rest | ' ' :: rest => some rest
    | _ => none
  let (ofDay, nanos, s) ← time? s
  let (offset, s) ← offset? (trimStart s)
  let t : Instant := ⟨date.toDays * 86400 + ofDay - offset, nanos⟩
  let last : Instant := ⟨Instant.max.seconds, 1999999999⟩
  if (trimStart s).isEmpty && decide (offset.natAbs < 86400) && Instant.min.le t && t.le last then
    some t
  else none

end MockServer.Time.Rfc3339
