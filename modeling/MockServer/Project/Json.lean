import MockServer.Json.Decode
import MockServer.Json.Value
import MockServer.Project.Basic
import MockServer.Time.Rfc3339

/-!
The JSON forms of projects, drafts and revisions.
-/
namespace MockServer

open MockServer.Json

namespace Method

def names : List (String × Method) :=
  [("GET", .get), ("POST", .post), ("PUT", .put), ("DELETE", .delete), ("PATCH", .patch)]

def name : Method → String
  | .get => "GET"
  | .post => "POST"
  | .put => "PUT"
  | .delete => "DELETE"
  | .patch => "PATCH"

end Method

namespace Time.Instant

def json (t : Instant) : Json.Value := .string (String.ofList (Rfc3339.write t))

def decoder : Decoder Instant := fun room t => do
  match Rfc3339.read? (← Decoder.string room t).toList with
  | some i => return i
  | none => .error (.wrongKind "a date and time")

end Time.Instant

/-- Status codes in their JSON form. -/
def jsonStatusCodes (codes : List UInt16) : Json.Value :=
  .array (codes.map fun c => .int c.toNat)

def jsonHours (hours : UInt64) : Json.Value := .int hours.toNat

def jsonMethod (m : Method) : Json.Value := .string m.name

namespace Project

/-- Members in declared order; a description only if there is one. -/
def json (p : Project) : Json.Value :=
  .ofMembers
    [("id", some (.string p.id)), ("name", some (.string p.name)),
     ("description", p.description.map .string),
     ("interface_code", some (.string p.interfaceCode)),
     ("endpoint", some (.string p.endpoint)), ("url", some (.string p.url)),
     ("method", some (jsonMethod p.method)),
     ("expected_status_codes", some (jsonStatusCodes p.expectedStatusCodes)),
     ("expires_at", some p.expiresAt.json), ("created_at", some p.createdAt.json),
     ("updated_at", some p.updatedAt.json), ("is_active", some (.bool p.isActive))]

/-- Only the description may be missing. -/
def decoder : Decoder Project := fun room t => do
  let r ← Record.read
    ["id", "name", "description", "interface_code", "endpoint", "url", "method",
     "expected_status_codes", "expires_at", "created_at", "updated_at", "is_active"] room t
  return {
    id := ← r.required "id" Decoder.string
    name := ← r.required "name" Decoder.string
    description := ← r.optional "description" Decoder.string
    interfaceCode := ← r.required "interface_code" Decoder.string
    endpoint := ← r.required "endpoint" Decoder.string
    url := ← r.required "url" Decoder.string
    method := ← r.required "method" (Decoder.name Method.names)
    expectedStatusCodes := ← r.required "expected_status_codes" (Decoder.list Decoder.uint16)
    expiresAt := ← r.required "expires_at" Time.Instant.decoder
    createdAt := ← r.required "created_at" Time.Instant.decoder
    updatedAt := ← r.required "updated_at" Time.Instant.decoder
    isActive := ← r.required "is_active" Decoder.bool }

end Project

/-- The members of drafts and revisions, in the order of an array that stands for one. -/
def requestKeys : List String :=
  ["name", "description", "interface_code", "method", "expected_status_codes", "expiration_hours"]

namespace Draft

def json (d : Draft) : Json.Value :=
  .object
    [("name", .string d.name), ("description", .orNull (d.description.map .string)),
     ("interface_code", .string d.interfaceCode), ("method", .orNull (d.method.map jsonMethod)),
     ("expected_status_codes", .orNull (d.expectedStatusCodes.map jsonStatusCodes)),
     ("expiration_hours", .orNull (d.expirationHours.map jsonHours))]

/-- The texts that a project needs may be missing here, but not null. -/
def decoder : Decoder Draft := fun room t => do
  let r ← Record.read requestKeys room t
  return {
    name := ← r.withDefault "name" Decoder.string ""
    description := ← r.optional "description" Decoder.string
    interfaceCode := ← r.withDefault "interface_code" Decoder.string ""
    method := ← r.optional "method" (Decoder.name Method.names)
    expectedStatusCodes := ← r.optional "expected_status_codes" (Decoder.list Decoder.uint16)
    expirationHours := ← r.optional "expiration_hours" Decoder.uint64 }

end Draft

namespace Revision

def json (u : Revision) : Json.Value :=
  .object
    [("name", .orNull (u.name.map .string)), ("description", .orNull (u.description.map .string)),
     ("interface_code", .orNull (u.interfaceCode.map .string)),
     ("method", .orNull (u.method.map jsonMethod)),
     ("expected_status_codes", .orNull (u.expectedStatusCodes.map jsonStatusCodes)),
     ("expiration_hours", .orNull (u.expirationHours.map jsonHours))]

def decoder : Decoder Revision := fun room t => do
  let r ← Record.read requestKeys room t
  return {
    name := ← r.optional "name" Decoder.string
    description := ← r.optional "description" Decoder.string
    interfaceCode := ← r.optional "interface_code" Decoder.string
    method := ← r.optional "method" (Decoder.name Method.names)
    expectedStatusCodes := ← r.optional "expected_status_codes" (Decoder.list Decoder.uint16)
    expirationHours := ← r.optional "expiration_hours" Decoder.uint64 }

end Revision
end MockServer
