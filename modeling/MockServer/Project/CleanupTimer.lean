import MockServer.Project.Registry

/-!
Periodic cleanup: one at the start, and one whenever a multiple of the interval has passed since.
-/
namespace MockServer

/-- A running timer: its interval, which is positive, and the time since it started. -/
structure CleanupTimer where
  periodMillis : Nat
  elapsedMillis : Nat := 0
  deriving DecidableEq, Repr

namespace CleanupTimer

/-- An interval of zero seconds counts as one second. -/
def start (settings : ProjectSettings) : CleanupTimer :=
  ⟨max settings.cleanupIntervalSeconds.toNat 1 * 1000, 0⟩

/-- The timer some milliseconds later. -/
def advance (t : CleanupTimer) (ms : Nat) : CleanupTimer :=
  { t with elapsedMillis := t.elapsedMillis + ms }

/-- Whether the interval ends at least once within some milliseconds. -/
def isDue (t : CleanupTimer) (ms : Nat) : Bool :=
  t.elapsedMillis / t.periodMillis < (t.elapsedMillis + ms) / t.periodMillis

end CleanupTimer

/-- The registry after some milliseconds, read at their end: one cleanup does for all that are
due. -/
def Registry.afterTimers (r : Registry) (now : Time.Instant) (ms : Nat)
    (timers : List CleanupTimer) : Registry :=
  if timers.any (·.isDue ms) then (r.cleanup now).2 else r

end MockServer
