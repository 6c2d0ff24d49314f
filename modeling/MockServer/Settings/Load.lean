import MockServer.Settings.Check
import MockServer.Settings.CommandLine
import MockServer.Settings.Toml.Document

/-!
Settings from a file, the command line and the environment. A file is laid over the defaults, the
command line hides values of the file, and only then the rules are checked.
-/
namespace MockServer

/-- A format of settings files: the extensions of its files, and what a text of it says. Two formats
have their readers here; one such as YAML or INI comes with its own. -/
structure FileFormat where
  extensions : List String
  read? : List Char → Option ConfigValue

namespace FileFormat

def toml : FileFormat := ⟨["toml"], Toml.read?⟩

def json : FileFormat where
  extensions := ["json"]
  read? text := (Json.decode ConfigValue.decoder (Json.Input.ofText text)).toOption

/-- The formats that are read without a reader from elsewhere. -/
def known : List FileFormat := [toml, json]

/-- The format that the extension of a file name tells. A dot that starts the name starts no
extension. -/
def ofName? (formats : List FileFormat) (name : String) : Option FileFormat :=
  let last := (name.toList.reverse.takeWhile (· != '/')).reverse
  match last.tail.reverse.dropWhile (· != '.') with
  | [] => none
  | _ =>
    let extension := String.ofList (last.reverse.takeWhile (· != '.')).reverse
    formats.find? (·.extensions.contains extension)

end FileFormat

/-- The files that may hold the settings in one of some formats, the first of them first. A file of
no such format counts as empty. Slashes at the end of a name do not keep extensions from it. -/
def settingsFilesIn (formats : List FileFormat) (name : String) :
    List (String × Option FileFormat) :=
  let stem := String.ofList (name.toList.reverse.dropWhile (· == '/')).reverse
  (name, FileFormat.ofName? formats name) ::
    formats.flatMap fun f => f.extensions.map fun extension => (stem ++ "." ++ extension, some f)

def settingsFiles (name : String) : List (String × Option FileFormat) :=
  settingsFilesIn FileFormat.known name

/-- The settings file of a directory, if no other is named. -/
def settingsName : String := "dupi"

/-- Why settings cannot be used. -/
inductive LoadFault where
  /-- A file is not of its format. -/
  | malformedFile
  /-- A section is neither a table nor a list, or a list that lacks a value. -/
  | badSection
  /-- A value is not of the kind of its key. -/
  | wrongKind (key : String)
  /-- The settings break rules. -/
  | invalid (violations : List Violation)
  deriving DecidableEq, Repr

namespace LoadFault

def message : LoadFault → String
  | .malformedFile => "the settings file cannot be read"
  | .badSection => "a section of the settings file has not the form of one"
  | .wrongKind key => "a value is not of the right kind for key " ++ key
  | .invalid vs => Violation.report vs

end LoadFault

namespace ConfigValue

/-- The top level of a file. Anything but a table counts as an empty one, and a key may be a path.
-/
def ofFile (v : ConfigValue) : ConfigValue :=
  v.members.foldl (fun done (key, v) => setAt v (KeyPath.ofText key) done) (.table [])

/-- The top level of a file that is read as a format. -/
def ofText (format : FileFormat) (text : List Char) : Except LoadFault ConfigValue :=
  match format.read? text with
  | some v => .ok v.ofFile
  | none => .error .malformedFile

/-- What holds below every file. -/
def defaults : ConfigValue :=
  let d : ServerSettings := {}
  .table [("server", .table [("host", .text d.host), ("port", .int d.port.toNat)])]

end ConfigValue

/-- The values of a section, each with the key that names it in faults. -/
structure Section where
  values : List (String × String × ConfigValue)

namespace Section

/-- A section is a table, or a list of its values in the order of the keys. -/
def read (name : String) (keys : List String) : ConfigValue → Except LoadFault Section
  | .table members =>
    .ok ⟨keys.filterMap fun key =>
      (members.lookup key).map fun v => (key, name ++ "." ++ key, v)⟩
  | .list items =>
    let place (i : Nat) : String := name ++ "[" ++ String.ofList (Number.natText i) ++ "]"
    .ok ⟨(keys.zip items).mapIdx fun i (key, v) => (key, place i, v)⟩
  | _ => .error .badSection

def withDefault {α : Type} (s : Section) (key : String) (kind? : ConfigValue → Option α)
    (default : α) : Except LoadFault α :=
  match s.values.lookup key with
  | none => .ok default
  | some (place, v) =>
    match kind? v with
    | some a => .ok a
    | none => .error (.wrongKind place)

def required {α : Type} (s : Section) (key : String) (kind? : ConfigValue → Option α) :
    Except LoadFault α :=
  match s.values.lookup key with
  | none => .error .badSection
  | some (place, v) =>
    match kind? v with
    | some a => .ok a
    | none => .error (.wrongKind place)

end Section

namespace ServerSettings

def ofConfig (v : ConfigValue) : Except LoadFault ServerSettings := do
  let s ← Section.read "server" ["host", "port"] v
  return {
    host := ← s.required "host" ConfigValue.text?
    port := ← s.required "port" ConfigValue.uint16? }

end ServerSettings

namespace GeneratorSettings

def ofConfig (v : ConfigValue) : Except LoadFault GeneratorSettings := do
  let s ← Section.read "generator" ["max_array_size", "optional_omit_probability"] v
  let d : GeneratorSettings := {}
  return {
    maxArraySize := ← s.withDefault "max_array_size" ConfigValue.uint64? d.maxArraySize
    optionalOmitProbability :=
      ← s.withDefault "optional_omit_probability" ConfigValue.real? d.optionalOmitProbability }

end GeneratorSettings

namespace ProjectSettings

def ofConfig (v : ConfigValue) : Except LoadFault ProjectSettings := do
  let s ← Section.read "projects"
    ["default_expiration_hours", "max_projects", "cleanup_interval_seconds", "base_url"] v
  let d : ProjectSettings := {}
  return {
    defaultExpirationHours :=
      ← s.withDefault "default_expiration_hours" ConfigValue.uint64? d.defaultExpirationHours
    maxProjects := ← s.withDefault "max_projects" ConfigValue.uint64? d.maxProjects
    cleanupIntervalSeconds :=
      ← s.withDefault "cleanup_interval_seconds" ConfigValue.uint64? d.cleanupIntervalSeconds
    baseUrl := ← s.withDefault "base_url" ConfigValue.text? d.baseUrl }

end ProjectSettings

namespace Settings

/-- A section of the top level, or what holds where there is none. -/
def ofSection {α : Type} (members : List (String × ConfigValue)) (name : String)
    (read : ConfigValue → Except LoadFault α) (default : α) : Except LoadFault α :=
  match members.lookup name with
  | some v => read v
  | none => .ok default

/-- The settings that the top level of a file gives. -/
def ofConfig (v : ConfigValue) : Except LoadFault Settings := do
  let members := (ConfigValue.defaults.merge v).members
  return {
    server := ← ofSection members "server" ServerSettings.ofConfig {}
    generator := ← ofSection members "generator" GeneratorSettings.ofConfig {}
    projects := ← ofSection members "projects" ProjectSettings.ofConfig {} }

/-- Values of the command line hide those of a file. -/
def override (s : Settings) (c : CommandLine) : Settings where
  server := { host := c.host.getD s.server.host, port := c.port.getD s.server.port }
  generator := { s.generator with maxArraySize := c.maxArraySize.getD s.generator.maxArraySize }
  projects := { s.projects with baseUrl := c.baseUrl.getD s.projects.baseUrl }

/-- Settings that break no rule. -/
def checked (s : Settings) : Except LoadFault Settings :=
  match s.violations with
  | [] => .ok s
  | vs => .error (.invalid vs)

/-- The settings of a top level and a command line. -/
def load (v : ConfigValue) (c : CommandLine) : Except LoadFault Settings := do
  let s ← ofConfig v
  (s.override c).checked

end Settings
end MockServer
