import MockServer.Number.Digits

/-!
The command line: options with one value each, from the arguments or else from the environment.
-/
namespace MockServer

/-- What the command line and the environment say. -/
structure CommandLine where
  config : String := "dupi.toml"
  host : Option String := none
  port : Option UInt16 := none
  baseUrl : Option String := none
  maxArraySize : Option UInt64 := none
  deriving DecidableEq, Repr

namespace CommandLine

/-- The options in the order in which the environment is read. -/
inductive Name where
  | config | host | port | baseUrl | maxArraySize
  deriving DecidableEq, Repr

/-- Why the arguments give no command line. Help and version count as such. -/
inductive Fault where
  | unknownArgument
  /-- A value is missing, or the name of the settings file is empty. -/
  | invalidValue
  /-- A value is no number in range. -/
  | valueValidation
  /-- An option is given twice. -/
  | argumentConflict
  /-- A flag is given a value. -/
  | tooManyValues
  | help
  | version
  deriving DecidableEq, Repr

def names : List Name := [.config, .host, .port, .baseUrl, .maxArraySize]

namespace Fault

def message : Fault → String
  | .unknownArgument => "an argument is not known"
  | .invalidValue => "an option lacks its value"
  | .valueValidation => "a value is not a number in range"
  | .argumentConflict => "an option is given twice"
  | .tooManyValues => "a flag takes no value"
  | .help => "help is asked for"
  | .version => "the version is asked for"

end Fault

namespace Name

def long : Name → String
  | .config => "config"
  | .host => "host"
  | .port => "port"
  | .baseUrl => "base-url"
  | .maxArraySize => "max-array-size"

/-- The environment variable that stands for the option. -/
def environmentKey : Name → String
  | .config => "DUPI_CONFIG"
  | .host => "DUPI_HOST"
  | .port => "DUPI_PORT"
  | .baseUrl => "DUPI_BASE_URL"
  | .maxArraySize => "DUPI_MAX_ARRAY_SIZE"

def ofLong? (s : String) : Option Name := names.find? (·.long == s)

end Name

/-- A port is an integer from 0 to 65535; a sign may stand before it. -/
def port? (s : String) : Option UInt16 :=
  ((Number.int? s.toList).filter fun n => 0 ≤ n ∧ n < 0x10000).map fun n => UInt16.ofNat n.toNat

/-- The command line with one more value. -/
def set (c : CommandLine) (name : Name) (v : String) : Except Fault CommandLine :=
  match name with
  | .config => if v.isEmpty then .error .invalidValue else .ok { c with config := v }
  | .host => .ok { c with host := some v }
  | .baseUrl => .ok { c with baseUrl := some v }
  | .port =>
    match port? v with
    | some n => .ok { c with port := some n }
    | none => .error .valueValidation
  | .maxArraySize =>
    match Number.uint64? v.toList with
    | some n => .ok { c with maxArraySize := some n }
    | none => .error .valueValidation

/-- The arguments so far: the options that are settled, one that still waits for its value or whose
value is not yet judged, and whether only positional arguments may follow. -/
structure Scan where
  line : CommandLine := {}
  given : List Name := []
  pending : Option (Name × Option String) := none
  positionalOnly : Bool := false

namespace Scan

/-- An option with its value. A second one of a name is refused before its value is judged. -/
def accept (s : Scan) (name : Name) (v : String) : Except Fault Scan :=
  if name ∈ s.given then .error .argumentConflict
  else (s.line.set name v).map fun line => { s with line, given := name :: s.given }

/-- The pending option is settled when the next one starts and at the end, so an argument that is
not known is told first. -/
def settle (s : Scan) : Except Fault Scan :=
  match s.pending with
  | none => .ok s
  | some (_, none) => .error .invalidValue
  | some (name, some v) => { s with pending := none }.accept name v

/-- An option starts; its value may be attached. -/
def start (s : Scan) (name : Name) (attached : Option String) : Except Fault Scan := do
  let s ← s.settle
  match attached with
  | some v => s.accept name v
  | none => return { s with pending := some (name, none) }

/-- A flag ends the reading of arguments. -/
def flag (s : Scan) (f : Fault) : Except Fault Scan := do
  let _ ← s.settle
  .error f

/-- An argument after two hyphens: a name, and a value after an equals sign. -/
def longArgument (s : Scan) (text : List Char) : Except Fault Scan :=
  let name := String.ofList (text.takeWhile (· != '='))
  let attached := match text.dropWhile (· != '=') with
    | _ :: v => some (String.ofList v)
    | [] => none
  match Name.ofLong? name, name with
  | some n, _ => s.start n attached
  | none, "help" => if attached.isSome then .error .tooManyValues else s.flag .help
  | none, "version" => if attached.isSome then .error .tooManyValues else s.flag .version
  | none, _ => .error .unknownArgument

/-- An argument after one hyphen. Only its first letter counts, for all of them end the argument;
what follows is the value, after an equals sign or not. -/
def shortArgument (s : Scan) (letter : Char) (rest : List Char) : Except Fault Scan :=
  match letter, rest with
  | 'c', [] => s.start .config none
  | 'c', '=' :: v => s.start .config (some (String.ofList v))
  | 'c', v => s.start .config (some (String.ofList v))
  | 'h', _ => s.flag .help
  | 'V', _ => s.flag .version
  | _, _ => .error .unknownArgument

/-- One more argument. A single hyphen is a value. -/
def step (s : Scan) (argument : String) : Except Fault Scan :=
  if s.positionalOnly then .error .unknownArgument
  else match argument.toList with
    | ['-', '-'] => .ok { s with positionalOnly := true }
    | '-' :: '-' :: text => s.longArgument text
    | '-' :: letter :: rest => s.shortArgument letter rest
    | _ => match s.pending with
      | some (name, none) => .ok { s with pending := some (name, some argument) }
      | _ => .error .unknownArgument

/-- An option that is not among the arguments is taken from the environment. -/
def fromEnvironment (environment : List (String × String)) (s : Scan) (name : Name) :
    Except Fault Scan :=
  if name ∈ s.given then .ok s
  else match environment.lookup name.environmentKey with
    | some v => s.accept name v
    | none => .ok s

end Scan

/-- The command line of arguments and environment. -/
def read (arguments : List String) (environment : List (String × String)) :
    Except Fault CommandLine := do
  let s ← arguments.foldlM Scan.step {}
  let s ← s.settle
  let s ← names.foldlM (Scan.fromEnvironment environment) s
  return s.line

/-- The text that lists the options. -/
def usage : String :=
  "Usage: dupi [OPTIONS]\n\nOptions:\n" ++
  String.join (names.map fun name =>
    "      --" ++ name.long ++ " <VALUE>  [env: " ++ name.environmentKey ++ "]\n") ++
  "  -h, --help\n  -V, --version\n"

/-- The text that names the program and its version. -/
def versionText : String := "dupi 0.1.0\n"

end CommandLine
end MockServer
