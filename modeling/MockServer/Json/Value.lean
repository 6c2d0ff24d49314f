import MockServer.Number.Digits

/-!
JSON values and their compact text: no blanks, members in their order.
-/
namespace MockServer.Json

/-- A value to be written. All numbers of replies are integers. -/
inductive Value where
  | null
  | bool (b : Bool)
  | int (n : Int)
  | string (s : String)
  | array (items : List Value)
  | object (members : List (String × Value))
  deriving Repr

/-- The escaped form of one character of a string. Quotes, backslashes and controls are escaped,
nothing else is. -/
def escape (c : Char) : List Char :=
  if c = '"' then ['\\', '"']
  else if c = '\\' then ['\\', '\\']
  else if c = '\x08' then ['\\', 'b']
  else if c = '\x0c' then ['\\', 'f']
  else if c = '\n' then ['\\', 'n']
  else if c = '\r' then ['\\', 'r']
  else if c = '\t' then ['\\', 't']
  else if c.toNat < 0x20 then
    ['\\', 'u', '0', '0', Number.hexChar (c.toNat / 16), Number.hexChar (c.toNat % 16)]
  else [c]

def quote (s : List Char) : List Char := '"' :: (s.flatMap escape ++ ['"'])

mutual

def Value.write : Value → List Char
  | .null => "null".toList
  | .bool true => "true".toList
  | .bool false => "false".toList
  | .int n => Number.intText n
  | .string s => quote s.toList
  | .array [] => ['[', ']']
  | .array (v :: rest) => '[' :: (v.write ++ writeItems rest)
  | .object [] => ['\x7b', '\x7d']
  | .object ((key, v) :: rest) =>
    '\x7b' :: (quote key.toList ++ ':' :: (v.write ++ writeMembers rest))

/-- The items after the first one and the closing bracket. -/
def writeItems : List Value → List Char
  | [] => [']']
  | v :: rest => ',' :: (v.write ++ writeItems rest)

/-- The members after the first one and the closing brace. -/
def writeMembers : List (String × Value) → List Char
  | [] => ['\x7d']
  | (key, v) :: rest => ',' :: (quote key.toList ++ ':' :: (v.write ++ writeMembers rest))

end

def Value.text (v : Value) : String := String.ofList v.write

/-- The members that are present. -/
def Value.ofMembers (members : List (String × Option Value)) : Value :=
  .object (members.filterMap fun (key, v) => v.map (key, ·))

def Value.orNull : Option Value → Value
  | some v => v
  | none => .null

end MockServer.Json
