import MockServer.Time.Calendar

/-!
Instants of Universal Time to the nanosecond, and spans between them. Both have a range, and what
leaves it is none.
-/
namespace MockServer.Time

/-- Whole seconds since the start of 1970 and nanoseconds after them. From a thousand million
nanoseconds on the instant lies in a leap second that follows the second. -/
structure Instant where
  seconds : Int
  nanos : Nat
  deriving DecidableEq, Repr

namespace Instant

/-- Instants are ordered by second and nanosecond, so a leap second comes after all of the second
that it follows. -/
def before (a b : Instant) : Bool :=
  decide (a.seconds < b.seconds ∨ (a.seconds = b.seconds ∧ a.nanos < b.nanos))

def le (a b : Instant) : Bool := !b.before a

def ofNanos (n : Int) : Instant := ⟨n / 1000000000, (n % 1000000000).toNat⟩

def addMillis (t : Instant) (ms : Int) : Instant :=
  ofNanos (t.seconds * 1000000000 + t.nanos + ms * 1000000)

def addSeconds (t : Instant) (s : Int) : Instant := { t with seconds := t.seconds + s }

/-- The last nanosecond of the last year. -/
def max : Instant :=
  ⟨(Date.toDays ⟨Date.maxYear, 12, 31⟩ + 1) * 86400 - 1, 999999999⟩

/-- The first instant of the first year. -/
def min : Instant := ⟨Date.toDays ⟨Date.minYear, 1, 1⟩ * 86400, 0⟩

end Instant

/-- A length of time in whole seconds. Its milliseconds fit 64 bits with sign. -/
structure Span where
  seconds : Int
  deriving DecidableEq, Repr

namespace Span

def ofHours? (hours : Int) : Option Span :=
  let seconds := hours * 3600
  if (seconds * 1000).natAbs ≤ 0x7FFFFFFFFFFFFFFF then some ⟨seconds⟩ else none

end Span

namespace Instant

/-- The instant a span later, if its date is in range. -/
def add? (t : Instant) (d : Span) : Option Instant :=
  let later := t.addSeconds d.seconds
  if min.le later && later.le max then some later else none

/-- The instant some hours later, or the last one if that is out of range. -/
def addHours (t : Instant) (hours : UInt64) : Instant :=
  let bounded : Int := Min.min (hours.toNat : Int) 0x7FFFFFFFFFFFFFFF
  ((Span.ofHours? bounded).bind t.add?).getD max

end Instant
end MockServer.Time
