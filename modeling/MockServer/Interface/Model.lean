/-!
The model of an interface: its name and its fields in order, each with the shape of its values.
-/
namespace MockServer

inductive Kind where
  | string | number | boolean | date | object
  deriving DecidableEq, Repr

/-- What a string stands for, where its name or type gives a hint. -/
inductive StringFormat where
  | email | url | phone | name | address | company | uuid
  deriving DecidableEq, Repr

/-- The shape of one field. A model that was read as data may carry a format or members with any
kind; one that was parsed carries them only with strings and objects. Absent members and an empty
list of members are different. -/
structure FieldType where
  kind : Kind
  isArray : Bool := false
  isOptional : Bool := false
  format : Option StringFormat := none
  members : Option (List (String × FieldType)) := none
  deriving Repr

/-- Fields in the order of their first declaration. -/
abbrev Fields := List (String × FieldType)

namespace Fields

/-- A name that is there already keeps its position and takes the new type. -/
def insert (name : String) (type : FieldType) : Fields → Fields
  | [] => [(name, type)]
  | (n, t) :: rest => if n = name then (n, type) :: rest else (n, t) :: insert name type rest

/-- Declarations applied in order: the last one of a name counts, at the place of the first. -/
def ofList (declared : List (String × FieldType)) : Fields :=
  declared.foldl (fun fields d => insert d.1 d.2 fields) []

private theorem mem_names_insert {name m : String} {type : FieldType} {fields : Fields} :
    m ∈ (insert name type fields).map (·.1) ↔ m = name ∨ m ∈ fields.map (·.1) := by
  induction fields with
  | nil => simp [insert]
  | cons f rest ih =>
    obtain ⟨n, t⟩ := f
    by_cases h : n = name
    · simp [insert, h]
    · simp only [insert, h, if_false, List.map_cons, List.mem_cons, ih]
      exact or_left_comm

theorem nodup_names_insert {name : String} {type : FieldType} {fields : Fields}
    (h : (fields.map (·.1)).Nodup) : ((insert name type fields).map (·.1)).Nodup := by
  induction fields with
  | nil => simp [insert]
  | cons f rest ih =>
    obtain ⟨n, t⟩ := f
    rw [List.map_cons, List.nodup_cons] at h
    by_cases hn : n = name
    · rw [insert, if_pos hn, List.map_cons, List.nodup_cons]
      exact h
    · simp only [insert, hn, if_false, List.map_cons, List.nodup_cons]
      exact ⟨fun hm => (mem_names_insert.1 hm).elim hn h.1, ih h.2⟩

end Fields

/-- An interface block reduced to what data generation needs. -/
structure Interface where
  name : String
  fields : Fields

namespace Interface

/-- The name of a text that declares none. -/
def unknownName : String := "UnknownInterface"

def isEmpty (i : Interface) : Bool := i.fields.isEmpty

end Interface
end MockServer
