import MockServer.Settings.Basic

/-!
The rules that settings must meet before the server starts. All violations are told, in the order of
the rules.
-/
namespace MockServer

open MockServer.Number

inductive Violation where
  | missing (field : String)
  | invalid (field reason : String)
  deriving DecidableEq, Repr

namespace Violation

def message : Violation → String
  | .missing field => "Missing required field: " ++ field
  | .invalid field reason => "Invalid value for " ++ field ++ ": " ++ reason

/-- A violation where a rule is broken. -/
def when (broken : Bool) (v : Violation) : List Violation := if broken then [v] else []

/-- All violations as one text, a line each. -/
def report (vs : List Violation) : String :=
  "Configuration validation failed:\n" ++ "\n".intercalate (vs.map message)

end Violation

/-- Whether a value is a probability. NaN is none. -/
def isProbability (p : Binary64) : Bool := Binary64.zero.le p && p.le Binary64.one

namespace Settings

/-- The rules that the settings break, in the order of the rules. -/
def violations (s : Settings) : List Violation :=
  Violation.when s.server.host.isEmpty (.missing "server.host") ++
  Violation.when (s.server.port == 0) (.invalid "server.port" "Port must be greater than 0") ++
  Violation.when (s.generator.maxArraySize == 0)
    (.invalid "generator.max_array_size" "Must be at least 1") ++
  Violation.when (!isProbability s.generator.optionalOmitProbability)
    (.invalid "generator.optional_omit_probability" "Must be between 0.0 and 1.0") ++
  Violation.when (s.projects.defaultExpirationHours == 0)
    (.invalid "projects.default_expiration_hours" "Must be greater than 0") ++
  Violation.when (s.projects.maxProjects == 0)
    (.invalid "projects.max_projects" "Must be greater than 0") ++
  Violation.when (s.projects.cleanupIntervalSeconds == 0)
    (.invalid "projects.cleanup_interval_seconds" "Must be greater than 0") ++
  Violation.when s.projects.baseUrl.isEmpty (.missing "projects.base_url")

end Settings
end MockServer
