import MockServer.Json.Numeral
import MockServer.Json.Read

/-!
Decoding written values into records. A value that is kept must be valid and nest at most 127
deep; a member that no record asks for is never looked at.
-/
namespace MockServer.Json

/-- Why a text does not give a record. -/
inductive Fault where
  | malformed
  | badText
  | tooDeep
  | wrongKind (expected : String)
  | outOfRange
  | repeatedKey (key : String)
  | missingKey (key : String)
  | tooManyItems
  deriving DecidableEq, Repr

namespace Fault

def message : Fault → String
  | .malformed => "the text is not a JSON value"
  | .badText => "a string is not valid text"
  | .tooDeep => "the value nests too deep"
  | .wrongKind expected => "expected " ++ expected
  | .outOfRange => "a number is out of range"
  | .repeatedKey key => "the key " ++ key ++ " is given twice"
  | .missingKey key => "the key " ++ key ++ " is missing"
  | .tooManyItems => "an array has too many items"

end Fault

/-- How deep kept containers may nest. -/
def maxDepth : Nat := 127

/-- A way to read a value, given how many levels of containers may still open. -/
abbrev Decoder (α : Type) := Nat → Tree → Except Fault α

namespace Decoder

/-- The levels left inside a container. -/
def enter : Nat → Except Fault Nat
  | 0 => .error .tooDeep
  | room + 1 => .ok room

def text (q : Quoted) : Except Fault String :=
  match q.text? with
  | some s => .ok s
  | none => .error .badText

def string : Decoder String := fun _ t =>
  match t with
  | .string q => text q
  | _ => .error (.wrongKind "a string")

def bool : Decoder Bool := fun _ t =>
  match t with
  | .bool b => .ok b
  | _ => .error (.wrongKind "a boolean")

/-- An integer without sign, fraction or exponent, below a bound. -/
def natBelow (bound : Nat) : Decoder Nat := fun _ t =>
  match t with
  | .number n =>
    match n.natural? with
    | some m => if m < bound then .ok m else .error .outOfRange
    | none => .error (.wrongKind "a natural number")
  | _ => .error (.wrongKind "a natural number")

def uint16 : Decoder UInt16 := fun room t => (natBelow 0x10000 room t).map UInt16.ofNat
def uint64 : Decoder UInt64 := fun room t => (natBelow 0x10000000000000000 room t).map UInt64.ofNat

def binary64 : Decoder Number.Binary64 := fun _ t =>
  match t with
  | .number n =>
    match n.binary64? with
    | some x => .ok x
    | none => .error .outOfRange
  | _ => .error (.wrongKind "a number")

/-- A value or null. -/
def optional {α : Type} (d : Decoder α) : Decoder (Option α) := fun room t =>
  match t with
  | .null => .ok none
  | _ => (d room t).map some

def list {α : Type} (d : Decoder α) : Decoder (List α) := fun room t =>
  match t with
  | .array items => do
    let inner ← enter room
    items.mapM (d inner)
  | _ => .error (.wrongKind "an array")

/-- One of some names, either as a string or as the only key of an object with the value null. -/
def name {α : Type} (names : List (String × α)) : Decoder α := fun room t => do
  let pick (q : Quoted) : Except Fault α := do
    let s ← text q
    match names.find? (·.1 == s) with
    | some (_, a) => .ok a
    | none => .error (.wrongKind "a known name")
  match t with
  | .string q => pick q
  | .object [(q, .null)] => do
    let _ ← enter room
    pick q
  | _ => .error (.wrongKind "a name")

end Decoder

/-- The members that a record asks for, each at most once, and the levels left inside them. -/
structure Record where
  room : Nat
  members : List (String × Tree)

namespace Record

/-- The members of an object whose keys are asked for. Every key must be text. -/
def pick (keys : List String) : List (Quoted × Tree) → Except Fault (List (String × Tree))
  | [] => .ok []
  | (q, v) :: rest => do
    let key ← Decoder.text q
    let later ← pick keys rest
    if key ∈ keys then
      if (later.lookup key).isSome then .error (.repeatedKey key) else .ok ((key, v) :: later)
    else .ok later

/-- A record is an object, or an array of its members in the order of the keys; the last ones may
be left out of the array. -/
def read (keys : List String) : Decoder Record := fun room t =>
  match t with
  | .object members => do
    let inner ← Decoder.enter room
    let picked ← pick keys members
    .ok ⟨inner, picked⟩
  | .array items => do
    let inner ← Decoder.enter room
    if keys.length < items.length then .error .tooManyItems else .ok ⟨inner, keys.zip items⟩
  | _ => .error (.wrongKind "a record")

/-- A member that must be there. -/
def required {α : Type} (r : Record) (key : String) (d : Decoder α) : Except Fault α :=
  match r.members.lookup key with
  | some t => d r.room t
  | none => .error (.missingKey key)

/-- A member with a value that stands for a missing one. -/
def withDefault {α : Type} (r : Record) (key : String) (d : Decoder α) (default : α) :
    Except Fault α :=
  match r.members.lookup key with
  | some t => d r.room t
  | none => .ok default

/-- A member that may be missing or null. -/
def optional {α : Type} (r : Record) (key : String) (d : Decoder α) : Except Fault (Option α) :=
  r.withDefault key (Decoder.optional d) none

end Record

mutual

/-- Whether a value of any kind can be kept: strings are text, numbers are in range, and containers
nest no deeper than allowed. -/
def keep (room : Nat) : Tree → Except Fault Unit
  | .null => .ok ()
  | .bool _ => .ok ()
  | .number n => if n.binary64?.isSome then .ok () else .error .outOfRange
  | .string q => (Decoder.text q).map fun _ => ()
  | .array items => do keepItems (← Decoder.enter room) items
  | .object members => do keepMembers (← Decoder.enter room) members

def keepItems (room : Nat) : List Tree → Except Fault Unit
  | [] => .ok ()
  | t :: rest => do
    keep room t
    keepItems room rest

def keepMembers (room : Nat) : List (Quoted × Tree) → Except Fault Unit
  | [] => .ok ()
  | (q, t) :: rest => do
    let _ ← Decoder.text q
    keep room t
    keepMembers room rest

end

/-- A value of any kind that is kept as it is written. -/
def Decoder.any : Decoder Tree := fun room t => (keep room t).map fun _ => t

/-- The record of a whole input. -/
def decode {α : Type} (d : Decoder α) (input : Input) : Except Fault α :=
  match Tree.read? input with
  | some t => d maxDepth t
  | none => .error .malformed

/-- The record at the start of an input, whatever comes after it. -/
def decodeFirst {α : Type} (d : Decoder α) (input : Input) : Except Fault α :=
  match Tree.readFirst? input with
  | some t => d maxDepth t
  | none => .error .malformed

end MockServer.Json
