import MockServer.Json.Decode
import MockServer.Settings.Basic

/-!
Settings read from JSON. Only the server section and its members must be there.
-/
namespace MockServer

open MockServer.Json

namespace ServerSettings

def decoder : Decoder ServerSettings := fun room t => do
  let r ← Record.read ["host", "port"] room t
  return {
    host := ← r.required "host" Decoder.string
    port := ← r.required "port" Decoder.uint16 }

end ServerSettings

namespace GeneratorSettings

def decoder : Decoder GeneratorSettings := fun room t => do
  let r ← Record.read ["max_array_size", "optional_omit_probability"] room t
  return {
    maxArraySize := ← r.withDefault "max_array_size" Decoder.uint64 3
    optionalOmitProbability :=
      ← r.withDefault "optional_omit_probability" Decoder.binary64 defaultOmitProbability }

end GeneratorSettings

namespace ProjectSettings

def decoder : Decoder ProjectSettings := fun room t => do
  let r ← Record.read
    ["default_expiration_hours", "max_projects", "cleanup_interval_seconds", "base_url"] room t
  let d : ProjectSettings := {}
  return {
    defaultExpirationHours :=
      ← r.withDefault "default_expiration_hours" Decoder.uint64 d.defaultExpirationHours
    maxProjects := ← r.withDefault "max_projects" Decoder.uint64 d.maxProjects
    cleanupIntervalSeconds :=
      ← r.withDefault "cleanup_interval_seconds" Decoder.uint64 d.cleanupIntervalSeconds
    baseUrl := ← r.withDefault "base_url" Decoder.string d.baseUrl }

end ProjectSettings

namespace Settings

def decoder : Decoder Settings := fun room t => do
  let r ← Record.read ["server", "generator", "projects"] room t
  return {
    server := ← r.required "server" ServerSettings.decoder
    generator := ← r.withDefault "generator" GeneratorSettings.decoder {}
    projects := ← r.withDefault "projects" ProjectSettings.decoder {} }

end Settings
end MockServer
