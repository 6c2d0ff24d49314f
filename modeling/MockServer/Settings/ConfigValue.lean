import MockServer.Json.Decode
import MockServer.Number.Decimal
import MockServer.Number.Shortest
import MockServer.Settings.KeyPath

/-!
The values of settings files before their kinds are judged, how layers of them are laid over each
other, and which of them count as numbers or texts.
-/
namespace MockServer

open MockServer.Number

inductive ConfigValue where
  | null
  | bool (b : Bool)
  | int (n : Int)
  | real (x : Binary64)
  | text (s : String)
  | list (items : List ConfigValue)
  | table (members : List (String × ConfigValue))
  deriving Repr

namespace ConfigValue

/-- Nothing but a table has members. -/
def members : ConfigValue → List (String × ConfigValue)
  | .table members => members
  | _ => []

/-- Nothing but a list has items. -/
def items : ConfigValue → List ConfigValue
  | .list items => items
  | _ => []

/-- A member of a table. One that is missing counts as an empty table, over which every value can be
laid. -/
def member (v : ConfigValue) (key : String) : ConfigValue :=
  (v.members.lookup key).getD (.table [])

/-- A member takes the place of one of the same key, or else comes last. -/
def put {α : Type} (key : String) (v : α) : List (String × α) → List (String × α)
  | [] => [(key, v)]
  | (k, w) :: rest => if k = key then (k, v) :: rest else (k, w) :: put key v rest

mutual

/-- One value over another. A table is laid over it member by member, so an empty table hides
nothing; any other value hides what is below it. -/
def merge (below : ConfigValue) : ConfigValue → ConfigValue
  | .table members => mergeMembers below members
  | .null => .null
  | .bool b => .bool b
  | .int n => .int n
  | .real x => .real x
  | .text s => .text s
  | .list items => .list items

/-- Members over a value, which becomes a table with the first of them if it is none. -/
def mergeMembers (below : ConfigValue) : List (String × ConfigValue) → ConfigValue
  | [] => below
  | (key, v) :: rest =>
    mergeMembers (.table (put key (merge (below.member key) v) below.members)) rest

end

/-- Where a place lies in a list. A place from the end lies nowhere if the list is too short. -/
def position? (items : List ConfigValue) (i : Int) : Option Nat :=
  if 0 ≤ i then some i.toNat
  else if i.natAbs ≤ items.length then some (items.length - i.natAbs)
  else none

/-- A list with one item changed. A list that is too short is filled up with nulls before. -/
def changeItem (items : List ConfigValue) (i : Int) (change : ConfigValue → ConfigValue) :
    List ConfigValue :=
  match position? items i with
  | none => items
  | some n => (items ++ List.replicate (n + 1 - items.length) ConfigValue.null).modify n change

/-- A value with another one laid over what stands at the end of a path. What the path leads through
becomes a table or a list where it is none. In a list the new value hides the old one. -/
def setAt (v : ConfigValue) : KeyPath → ConfigValue → ConfigValue
  | [], below => below.merge v
  | .name key :: path, below =>
    .table (put key (setAt v path (below.member key)) below.members)
  | .place i :: path, below =>
    .list (changeItem below.items i fun item => if path.isEmpty then v else setAt v path item)

/-- The words that count as truth values wherever a number is wanted. They are ASCII, so only the
case of ASCII letters matters. -/
def truthWord? (s : String) : Option Bool :=
  let word := String.ofList (s.toList.map Char.toLower)
  if word ∈ ["true", "on", "yes"] then some true
  else if word ∈ ["false", "off", "no"] then some false
  else none

/-- A value as a natural number of 64 bits. Fractions are rounded, halves away from zero. -/
def uint64? : ConfigValue → Option UInt64
  | .bool b => some (if b then 1 else 0)
  | .int n =>
    if 0 ≤ n ∧ n < 0x10000000000000000 then some (UInt64.ofNat n.toNat) else none
  | .real x => some x.roundToUInt64
  | .text s =>
    match truthWord? s with
    | some b => some (if b then 1 else 0)
    | none => Number.uint64? s.toList
  | _ => none

/-- A value as a number of 16 bits: the lowest ones of the number of 64 bits. -/
def uint16? (v : ConfigValue) : Option UInt16 := v.uint64?.map UInt64.toUInt16

def real? : ConfigValue → Option Binary64
  | .bool b => some (if b then Binary64.one else Binary64.zero)
  | .int n => some (Binary64.ofInt n)
  | .real x => some x
  | .text s =>
    match truthWord? s with
    | some b => some (if b then Binary64.one else Binary64.zero)
    | none => Binary64.ofText? s.toList
  | _ => none

def text? : ConfigValue → Option String
  | .bool b => some (if b then "true" else "false")
  | .int n => some (String.ofList (intText n))
  | .real x => some (String.ofList x.text)
  | .text s => some s
  | _ => none

/-- A JSON number: an integer of 64 bits, or else the value it is near to. -/
def ofNumeral (n : Json.Numeral) : Except Json.Fault ConfigValue :=
  match n.int64?, n.binary64? with
  | some i, _ => .ok (.int i)
  | none, some x => .ok (.real x)
  | none, none => .error .outOfRange

mutual

/-- A JSON value, all of which is kept. The last of several members with one key counts. -/
def ofTree (room : Nat) : Json.Tree → Except Json.Fault ConfigValue
  | .null => .ok .null
  | .bool b => .ok (.bool b)
  | .number n => ofNumeral n
  | .string q => (Json.Decoder.text q).map .text
  | .array items => do return .list (← ofItems (← Json.Decoder.enter room) items)
  | .object members => do return .table (← ofMembers (← Json.Decoder.enter room) [] members)

def ofItems (room : Nat) : List Json.Tree → Except Json.Fault (List ConfigValue)
  | [] => .ok []
  | t :: rest => do return (← ofTree room t) :: (← ofItems room rest)

def ofMembers (room : Nat) (done : List (String × ConfigValue)) :
    List (Json.Quoted × Json.Tree) → Except Json.Fault (List (String × ConfigValue))
  | [] => .ok done
  | (q, t) :: rest => do
    let key ← Json.Decoder.text q
    ofMembers room (put key (← ofTree room t) done) rest

end

def decoder : Json.Decoder ConfigValue := ofTree

end ConfigValue
end MockServer
