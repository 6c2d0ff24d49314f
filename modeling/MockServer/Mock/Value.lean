import MockServer.Interface.Model
import MockServer.Json.Value
import MockServer.Random.Uuid
import MockServer.Time.Rfc3339

/-!
Mock values: generated data that remembers what each text stands for, and its JSON form.
-/
namespace MockServer.Mock

inductive Value where
  | number (n : Nat)
  | boolean (b : Bool)
  | date (t : Time.Instant)
  | uuid (id : Uuid)
  | words (ws : List String)
  | sample (format : StringFormat) (text : String)
  | array (items : List Value)
  | object (members : List (String × Value))

/-- The answer to a request for data: a single record, or a list of any number of them. -/
inductive Data where
  | one (record : Value)
  | many (records : List Value)

mutual

def Value.json : Value → Json.Value
  | .number n => .int n
  | .boolean b => .bool b
  | .date t => .string (String.ofList (Time.Rfc3339.writeMillis t))
  | .uuid id => .string (String.ofList id.text)
  | .words ws => .string (" ".intercalate ws)
  | .sample _ text => .string text
  | .array items => .array (jsonItems items)
  | .object members => .object (jsonMembers members)

def jsonItems : List Value → List Json.Value
  | [] => []
  | v :: rest => v.json :: jsonItems rest

def jsonMembers : List (String × Value) → List (String × Json.Value)
  | [] => []
  | (name, v) :: rest => (name, v.json) :: jsonMembers rest

end

namespace Data

def json : Data → Json.Value
  | .one record => record.json
  | .many records => .array (jsonItems records)

/-- How many records there are. -/
def count : Data → Nat
  | .one _ => 1
  | .many records => records.length

end Data
end MockServer.Mock
