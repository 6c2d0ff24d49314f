import MockServer.Text.Utf8

/-!
Why a request about projects is refused.
-/
namespace MockServer

inductive ProjectError where
  /-- There is no such project, or it is not live. -/
  | notFound
  /-- A name or an interface text is blank. -/
  | blankText
  | zeroHours
  /-- As many projects are live as the settings allow. -/
  | limitReached (live : Nat)
  | invalidInterface (fault : Text.Utf8.Fault)
  deriving DecidableEq, Repr

namespace ProjectError

/-- The part of a message that concerns bytes which are no text. -/
def interfaceMessage (fault : Text.Utf8.Fault) : String :=
  "Interface source must be valid UTF-8 text: " ++ fault.message

def message : ProjectError → String
  | .notFound => "Project not found or expired"
  | .blankText => "Name and interface code are required"
  | .zeroHours => "Expiration hours must be greater than 0"
  | .limitReached live =>
    "Project limit reached (" ++ String.ofList (Number.natText live) ++ " active projects)"
  | .invalidInterface fault => "Invalid interface: " ++ interfaceMessage fault

/-- The HTTP status that reports the error. -/
def status : ProjectError → Nat
  | .notFound => 404
  | .blankText | .zeroHours | .invalidInterface _ => 400
  | .limitReached _ => 409

end ProjectError

namespace Interface

/-- The text of an interface that came as bytes. -/
def textOfBytes (bytes : List UInt8) : Except ProjectError (List Char) :=
  match Text.Utf8.decode bytes with
  | .ok s => .ok s
  | .error fault => .error (.invalidInterface fault)

end Interface
end MockServer
