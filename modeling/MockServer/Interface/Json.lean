import MockServer.Interface.Model
import MockServer.Json.Decode
import MockServer.Json.Value

/-!
The JSON form of models. Flags are always written, a format and members only where they are present;
all but the kind may be missing where a model is read.
-/
namespace MockServer

open MockServer.Json

namespace Kind

def names : List (String × Kind) :=
  [("string", .string), ("number", .number), ("boolean", .boolean), ("date", .date),
   ("object", .object)]

def name : Kind → String
  | .string => "string"
  | .number => "number"
  | .boolean => "boolean"
  | .date => "date"
  | .object => "object"

end Kind

namespace StringFormat

def names : List (String × StringFormat) :=
  [("email", .email), ("url", .url), ("phone", .phone), ("name", .name), ("address", .address),
   ("company", .company), ("uuid", .uuid)]

def text : StringFormat → String
  | .email => "email"
  | .url => "url"
  | .phone => "phone"
  | .name => "name"
  | .address => "address"
  | .company => "company"
  | .uuid => "uuid"

end StringFormat

mutual

def FieldType.json : FieldType → Json.Value
  | ⟨kind, isArray, isOptional, format, none⟩ =>
    .ofMembers
      [("kind", some (.string kind.name)), ("is_array", some (.bool isArray)),
       ("is_optional", some (.bool isOptional)),
       ("string_format", format.map fun f => .string f.text)]
  | ⟨kind, isArray, isOptional, format, some members⟩ =>
    .ofMembers
      [("kind", some (.string kind.name)), ("is_array", some (.bool isArray)),
       ("is_optional", some (.bool isOptional)),
       ("string_format", format.map fun f => .string f.text),
       ("properties", some (.object (jsonFields members)))]

def jsonFields : List (String × FieldType) → List (String × Json.Value)
  | [] => []
  | (name, t) :: rest => (name, t.json) :: jsonFields rest

end

namespace Fields

/-- An object of fields; a name that is given again replaces the value at its first place. -/
def decoder (type : Decoder FieldType) : Decoder Fields := fun room t =>
  match t with
  | .object members => do
    let inner ← Decoder.enter room
    let fields ← members.mapM fun (q, v) => do return (← Decoder.text q, ← type inner v)
    return ofList fields
  | _ => .error (.wrongKind "an object")

end Fields

namespace FieldType

/-- A field type with at most `n` levels of members. -/
def decoderWithin : Nat → Decoder FieldType
  | 0 => fun _ _ => .error .tooDeep
  | n + 1 => fun room t => do
    let r ← Record.read ["kind", "is_array", "is_optional", "string_format", "properties"] room t
    return {
      kind := ← r.required "kind" (Decoder.name Kind.names)
      isArray := ← r.withDefault "is_array" Decoder.bool false
      isOptional := ← r.withDefault "is_optional" Decoder.bool false
      format := ← r.optional "string_format" (Decoder.name StringFormat.names)
      members := ← r.optional "properties" (Fields.decoder (decoderWithin n)) }

/-- A field type takes a level itself, so the levels of containers bound those of members. -/
def decoder : Decoder FieldType := fun room t => decoderWithin room room t

end FieldType

namespace Interface

def json (i : Interface) : Json.Value :=
  .object [("name", .string i.name), ("properties", .object (jsonFields i.fields))]

def decoder : Decoder Interface := fun room t => do
  let r ← Record.read ["name", "properties"] room t
  return {
    name := ← r.required "name" Decoder.string
    fields := ← r.required "properties" (Fields.decoder FieldType.decoder) }

end Interface
end MockServer
