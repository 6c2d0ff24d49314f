import MockServer.Time.Rfc3339

/-!
Dates and times of TOML: a date, a time of day, or both with or without an offset. Reading is strict
about the number of digits, but does not look at the lengths of months.
-/
namespace MockServer.Toml

open MockServer.Number MockServer.Time

structure TimeOfDay where
  hour : Nat
  minute : Nat
  second : Nat
  nanos : Nat
  deriving DecidableEq, Repr

inductive Offset where
  | utc
  /-- Hours to the east or, below zero, to the west. The minutes have no sign of their own. -/
  | hours (hours : Int) (minutes : Nat)
  deriving DecidableEq, Repr

inductive DateTime where
  | date (d : Date)
  | time (t : TimeOfDay)
  | both (d : Date) (t : TimeOfDay) (offset : Option Offset)
  deriving DecidableEq, Repr

namespace TimeOfDay

/-- Two digits each, and as many digits of the fraction as it needs. -/
def text (t : TimeOfDay) : List Char :=
  let fraction := ((paddedText 9 t.nanos).reverse.dropWhile (· == '0')).reverse
  paddedText 2 t.hour ++ ':' :: (paddedText 2 t.minute ++ ':' :: (paddedText 2 t.second ++
    if fraction.isEmpty then [] else '.' :: fraction))

/-- A time of day and what follows it. The hour may be 24; there are no leap seconds. -/
def ofText? (s : List Char) : Option (TimeOfDay × List Char) := do
  let (hour, s) ← Rfc3339.twoDigits? s
  let (minute, s) ← Rfc3339.twoDigits? (← Rfc3339.literal? ':' s)
  let (second, s) ← Rfc3339.twoDigits? (← Rfc3339.literal? ':' s)
  let (nanos, s) ← Rfc3339.fraction? s
  if hour ≤ 24 ∧ minute < 60 ∧ second < 60 then some (⟨hour, minute, second, nanos⟩, s) else none

end TimeOfDay

namespace Offset

def text : Offset → List Char
  | .utc => ['Z']
  | .hours h m =>
    (if h < 0 then '-' else '+') :: (paddedText 2 h.natAbs ++ ':' :: paddedText 2 m)

/-- Hours and minutes of two digits each, which may have any value. -/
def hours? (s : List Char) : Option (Nat × Nat × List Char) := do
  let (h, s) ← Rfc3339.twoDigits? s
  let (m, s) ← Rfc3339.twoDigits? (← Rfc3339.literal? ':' s)
  return (h, m, s)

/-- An offset and what follows it. -/
def ofText? : List Char → Option (Offset × List Char)
  | 'Z' :: rest | 'z' :: rest => some (.utc, rest)
  | '+' :: rest => (hours? rest).map fun (h, m, rest) => (.hours h m, rest)
  | '-' :: rest => (hours? rest).map fun (h, m, rest) => (.hours (-(h : Int)) m, rest)
  | _ => none

end Offset

namespace DateTime

def text : DateTime → List Char
  | .date d => Rfc3339.dateText d
  | .time t => t.text
  | .both d t offset => Rfc3339.dateText d ++ 'T' :: (t.text ++ (offset.map Offset.text).getD [])

/-- A date and what follows it. -/
def date? (s : List Char) : Option (Date × List Char) := do
  let (century, s) ← Rfc3339.twoDigits? s
  let (year, s) ← Rfc3339.twoDigits? s
  let (month, s) ← Rfc3339.twoDigits? (← Rfc3339.literal? '-' s)
  let (day, s) ← Rfc3339.twoDigits? (← Rfc3339.literal? '-' s)
  if 1 ≤ month ∧ month ≤ 12 ∧ 1 ≤ day ∧ day ≤ 31 then
    some (⟨century * 100 + year, month, day⟩, s)
  else none

/-- A time of day after a date, and what follows it. One space may stand for the `T`. -/
def timeAfter? : List Char → Option (TimeOfDay × List Char)
  | 'T' :: rest | 't' :: rest | ' ' :: rest => TimeOfDay.ofText? rest
  | _ => none

/-- A date, a time or both, and what follows. Only a time after a date may have an offset. -/
def ofText? (s : List Char) : Option (DateTime × List Char) :=
  match date? s with
  | none => (TimeOfDay.ofText? s).map fun (t, rest) => (.time t, rest)
  | some (d, rest) =>
    match timeAfter? rest with
    | none => some (.date d, rest)
    | some (t, rest) =>
      match Offset.ofText? rest with
      | none => some (.both d t none, rest)
      | some (offset, rest) => some (.both d t (some offset), rest)

end DateTime
end MockServer.Toml
