import MockServer.Number.Binary64

/-!
The settings of the server, with the values that hold where none is given.
-/
namespace MockServer

open MockServer.Number

/-- The probability 0.3 as the nearest 64-bit value. -/
def defaultOmitProbability : Binary64 := ⟨0x3FD3333333333333⟩

/-- How mock data is generated. The omit probability may be any value here, also NaN. -/
structure GeneratorSettings where
  maxArraySize : UInt64 := 3
  optionalOmitProbability : Binary64 := defaultOmitProbability
  deriving DecidableEq, Repr

namespace GeneratorSettings

/-- The probability that an optional field is left out: the setting brought into `[0, 1]`, or the
default for NaN. -/
def omitProbability (s : GeneratorSettings) : Binary64 :=
  if s.optionalOmitProbability.isNaN then defaultOmitProbability
  else s.optionalOmitProbability.clamp Binary64.zero Binary64.one

/-- The greatest length of a generated array, which is at least one. -/
def arrayLimit (s : GeneratorSettings) : Nat := max s.maxArraySize.toNat 1

end GeneratorSettings

/-- How projects are kept. The limit counts live projects only. -/
structure ProjectSettings where
  defaultExpirationHours : UInt64 := 24
  maxProjects : UInt64 := 50
  cleanupIntervalSeconds : UInt64 := 60
  baseUrl : String := "http://localhost:3000"
  deriving DecidableEq, Repr

structure ServerSettings where
  host : String := "127.0.0.1"
  port : UInt16 := 3000
  deriving DecidableEq, Repr

structure Settings where
  server : ServerSettings := {}
  generator : GeneratorSettings := {}
  projects : ProjectSettings := {}
  deriving DecidableEq, Repr

end MockServer
