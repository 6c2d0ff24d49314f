import MockServer.Interface.Json
import MockServer.Proofs.Interface.WellFormed
import MockServer.Proofs.Json.Record

/-!
Models as JSON. The text of a model gives back the model as long as its objects nest no deeper than
a reader allows, and is refused beyond that.
-/
namespace MockServer

open MockServer.Json

/-- Names that are distinct at every level; there is no other condition on a model that was not
parsed. -/
inductive Fields.Distinct : Fields → Prop
  | intro {fields : Fields} (names : (fields.map (·.1)).Nodup)
    (inner : ∀ f ∈ fields, ∀ members, f.2.members = some members → Fields.Distinct members) :
    Fields.Distinct fields

private theorem Kind.find?_name (k : Kind) :
    Kind.names.find? (·.1 == k.name) = some (k.name, k) := by
  cases k <;> rfl

private theorem StringFormat.find?_text (f : StringFormat) :
    StringFormat.names.find? (·.1 == f.text) = some (f.text, f) := by
  cases f <;> rfl

private theorem jsonFields_eq (fields : Fields) :
    jsonFields fields = fields.map fun f => (f.1, f.2.json) := by
  induction fields with
  | nil => rw [jsonFields]; rfl
  | cons f rest ih => rw [jsonFields, ih, List.map_cons]

namespace FieldType

/-- The members of the JSON form; those without a value are left out of it. -/
def jsonMembers (t : FieldType) : List (String × Option Json.Value) :=
  [("kind", some (.string t.kind.name)), ("is_array", some (.bool t.isArray)),
   ("is_optional", some (.bool t.isOptional)),
   ("string_format", t.format.map fun f => .string f.text),
   ("properties", t.members.map fun fields => .object (jsonFields fields))]

private theorem json_eq (t : FieldType) : t.json = .ofMembers t.jsonMembers := by
  obtain ⟨kind, isArray, isOptional, format, members⟩ := t
  cases members <;> cases format <;> rfl

private theorem nodup_jsonMembers (t : FieldType) : (t.jsonMembers.map (·.1)).Nodup := by
  simp [jsonMembers]

/-- A field type is one object, with the members inside it. -/
theorem depth_json_le_iff (t : FieldType) (n : Nat) :
    t.json.depth ≤ n + 1 ↔
      ∀ fields ∈ t.members, (Json.Value.object (jsonFields fields)).depth ≤ n := by
  rw [json_eq, depth_ofMembers_le_iff]
  simp [jsonMembers, Json.Value.depth]

private theorem depth_json_pos (t : FieldType) : 0 < t.json.depth := by
  rw [json_eq, Json.Value.ofMembers, Json.Value.depth]
  exact Nat.succ_pos _

end FieldType

private theorem depth_jsonFields_le_iff (fields : Fields) (n : Nat) :
    (Json.Value.object (jsonFields fields)).depth ≤ n + 1 ↔ ∀ f ∈ fields, f.2.json.depth ≤ n := by
  rw [depth_object_le_iff, jsonFields_eq]
  exact List.forall_mem_map

/-- The outcome for a value that can be refused for its depth alone. -/
def boundedBy {α : Type} (depth room : Nat) (a : α) : Except Fault α :=
  if depth ≤ room then .ok a else .error .tooDeep

private theorem boundedBy_of_le {α : Type} {depth room : Nat} (h : depth ≤ room) (a : α) :
    boundedBy depth room a = .ok a := if_pos h

private theorem boundedBy_of_lt {α : Type} {depth room : Nat} (h : room < depth) (a : α) :
    boundedBy depth room a = .error .tooDeep := if_neg (Nat.not_le.mpr h)

private theorem Fields.decoder_json {type : Decoder FieldType} {fields : Fields} {room : Nat}
    (hnames : (fields.map (·.1)).Nodup)
    (htype : ∀ f ∈ fields, type room f.2.json.tree = boundedBy f.2.json.depth room f.2) :
    Fields.decoder type (room + 1) (Json.Value.object (jsonFields fields)).tree =
      boundedBy (Json.Value.object (jsonFields fields)).depth (room + 1) fields := by
  have hmembers : memberTrees (jsonFields fields) =
      fields.map fun f => (.ofText f.1.toList, f.2.json.tree) := by
    rw [memberTrees_eq, jsonFields_eq, List.map_map]
    rfl
  let field (f : String × FieldType) : Except Fault (String × FieldType) := do
    return (← Decoder.text (.ofText f.1.toList), ← type room f.2.json.tree)
  have heach : ∀ f ∈ fields, field f =
      if f.2.json.depth ≤ room then .ok f else .error Fault.tooDeep := by
    intro f hf
    simp only [field, htype f hf, Decoder.text_ofText, boundedBy]
    split <;> rfl
  have hfields := mapM_eq_ite (g := fun f => f) heach
  rw [List.map_id'] at hfields
  simp only [Fields.decoder, Json.Value.tree, Decoder.enter, hmembers, List.mapM_map]
  change (fields.mapM field >>= fun fields => pure (ofList fields)) = _
  simp only [hfields, boundedBy, depth_jsonFields_le_iff]
  split
  · exact congrArg Except.ok (ofList_of_nodup hnames)
  · rfl

namespace FieldType

/-- The names inside a field type are distinct at every level. -/
def Distinct (t : FieldType) : Prop := ∀ fields, t.members = some fields → Fields.Distinct fields

section

variable (t : FieldType) (room : Nat)

/-- The record that the JSON form of a field type is read as. -/
def record : Record := ⟨room, Record.present t.jsonMembers⟩

private theorem record_kind :
    (t.record room).required "kind" (Decoder.name Kind.names) = .ok t.kind := by
  rw [record, Record.required_present (v := .string t.kind.name) t.nodup_jsonMembers
    (by simp [jsonMembers])]
  exact Decoder.name_tree t.kind.find?_name room

private theorem record_isArray :
    (t.record room).withDefault "is_array" Decoder.bool false = .ok t.isArray := by
  rw [record, Record.withDefault_present (v := .bool t.isArray) t.nodup_jsonMembers
    (by simp [jsonMembers])]
  rfl

private theorem record_isOptional :
    (t.record room).withDefault "is_optional" Decoder.bool false = .ok t.isOptional := by
  rw [record, Record.withDefault_present (v := .bool t.isOptional) t.nodup_jsonMembers
    (by simp [jsonMembers])]
  rfl

private theorem record_format :
    (t.record room).optional "string_format" (Decoder.name StringFormat.names) = .ok t.format := by
  cases hf : t.format with
  | none => exact Record.optional_absent t.nodup_jsonMembers (by simp [jsonMembers, hf]) _
  | some f =>
    rw [record, Record.optional_present (v := .string f.text) t.nodup_jsonMembers
      (by simp [jsonMembers, hf]) nofun, Decoder.name_tree f.find?_text]
    rfl

/-- What can be too deep is the members. -/
theorem record_members {type : Decoder FieldType} (hdistinct : t.Distinct)
    (htype : ∀ inner < room, ∀ u : FieldType, u.Distinct →
      type inner u.json.tree = boundedBy u.json.depth inner u) :
    (t.record room).optional "properties" (Fields.decoder type) =
      boundedBy t.json.depth (room + 1) t.members := by
  simp only [boundedBy, depth_json_le_iff]
  cases hm : t.members with
  | none =>
    rw [if_pos (by simp)]
    exact Record.optional_absent t.nodup_jsonMembers (by simp [jsonMembers, hm]) _
  | some fields =>
    obtain ⟨names, inner⟩ := hdistinct fields hm
    rw [record, Record.optional_present (v := .object (jsonFields fields)) t.nodup_jsonMembers
      (by simp [jsonMembers, hm]) nofun]
    cases room with
    | zero =>
      rw [if_neg (by simp [Json.Value.depth])]
      rfl
    | succ room =>
      rw [Fields.decoder_json names fun f hf => htype room (Nat.lt_succ_self room) f.2 (inner f hf)]
      simp only [boundedBy, Option.mem_def, Option.some.injEq, forall_eq']
      split <;> rfl

end

/-- A field type is decoded as it was written, as long as there is room for its depth. -/
theorem decoderWithin_json (n room : Nat) (t : FieldType) (hroom : room ≤ n)
    (hdistinct : t.Distinct) :
    decoderWithin n room t.json.tree = boundedBy t.json.depth room t := by
  induction n generalizing room t with
  | zero =>
    rw [boundedBy_of_lt (Nat.lt_of_le_of_lt hroom t.depth_json_pos)]
    rfl
  | succ n ih =>
    cases room with
    | zero =>
      rw [boundedBy_of_lt t.depth_json_pos, json_eq]
      rfl
    | succ room =>
      have hread : Record.read ["kind", "is_array", "is_optional", "string_format", "properties"]
          (room + 1) t.json.tree = .ok (t.record room) := by
        rw [json_eq]
        exact Record.read_ofMembers t.nodup_jsonMembers room
      have hmembers := t.record_members room hdistinct fun inner hinner u =>
        ih inner u (by omega)
      rcases Nat.lt_or_ge (room + 1) t.json.depth with hdeep | hfits
      · rw [boundedBy_of_lt hdeep] at hmembers ⊢
        simp only [decoderWithin, hread, record_kind, record_isArray, record_isOptional,
          record_format, hmembers, bind, Except.bind]
      · rw [boundedBy_of_le hfits] at hmembers ⊢
        simp only [decoderWithin, hread, record_kind, record_isArray, record_isOptional,
          record_format, hmembers, bind, Except.bind]
        cases t
        rfl

end FieldType

namespace Interface

/-- The members of the JSON form, of which none can be missing. -/
def jsonMembers (i : Interface) : List (String × Option Json.Value) :=
  [("name", some (.string i.name)), ("properties", some (.object (jsonFields i.fields)))]

private theorem json_eq (i : Interface) : i.json = .ofMembers i.jsonMembers := rfl

private theorem nodup_jsonMembers (i : Interface) : (i.jsonMembers.map (·.1)).Nodup := by
  simp [jsonMembers]

private theorem depth_json_le_iff (i : Interface) (n : Nat) :
    i.json.depth ≤ n + 1 ↔ (Json.Value.object (jsonFields i.fields)).depth ≤ n := by
  rw [json_eq, depth_ofMembers_le_iff]
  simp [jsonMembers, Json.Value.depth]

/-- The record that the JSON form of a model is read as. -/
def record (i : Interface) (room : Nat) : Record := ⟨room, Record.present i.jsonMembers⟩

private theorem record_name (i : Interface) (room : Nat) :
    (i.record room).required "name" Decoder.string = .ok i.name := by
  rw [record, Record.required_present (v := .string i.name) i.nodup_jsonMembers
    (by simp [jsonMembers]), Decoder.string_tree]

private theorem record_fields (i : Interface) (h : i.fields.Distinct) (room : Nat) :
    (i.record room).required "properties" (Fields.decoder FieldType.decoder) =
      boundedBy i.json.depth (room + 1) i.fields := by
  obtain ⟨names, inner⟩ := h
  simp only [boundedBy, depth_json_le_iff]
  rw [record, Record.required_present (v := .object (jsonFields i.fields)) i.nodup_jsonMembers
    (by simp [jsonMembers])]
  cases room with
  | zero =>
    rw [if_neg (by simp [Json.Value.depth])]
    rfl
  | succ room =>
    exact Fields.decoder_json names fun f hf =>
      FieldType.decoderWithin_json room room f.2 (Nat.le_refl _) (inner f hf)

/-- A model is decoded as it was written, as long as its objects nest no deeper than allowed. -/
theorem decoder_json (i : Interface) (h : i.fields.Distinct) (room : Nat) :
    decoder (room + 1) i.json.tree = boundedBy i.json.depth (room + 1) i := by
  have hread : Record.read ["name", "properties"] (room + 1) i.json.tree =
      .ok (i.record room) := by
    rw [json_eq]
    exact Record.read_ofMembers i.nodup_jsonMembers room
  have hfields := i.record_fields h room
  rcases Nat.lt_or_ge (room + 1) i.json.depth with hdeep | hfits
  · rw [boundedBy_of_lt hdeep] at hfields ⊢
    simp only [decoder, hread, record_name, hfields, bind, Except.bind]
  · rw [boundedBy_of_le hfits] at hfields ⊢
    simp only [decoder, hread, record_name, hfields, bind, Except.bind]
    rfl

/-- The text of a model gives back the model if its objects nest at most 127 deep, and is refused
if they nest deeper. -/
theorem decode_text (i : Interface) (h : i.fields.Distinct) :
    (i.json.depth ≤ 127 → decode decoder (.ofText i.json.text.toList) = .ok i) ∧
      (127 < i.json.depth → decode decoder (.ofText i.json.text.toList) = .error .tooDeep) := by
  have hdecode : decode decoder (.ofText i.json.text.toList) = boundedBy i.json.depth 127 i := by
    rw [Json.Value.text, String.toList_ofList, decode, Tree.read?_write]
    exact decoder_json i h 126
  rw [hdecode]
  exact ⟨fun hfits => boundedBy_of_le hfits i, fun hdeep => boundedBy_of_lt hdeep i⟩

private theorem depth_json (i : Interface) :
    i.json.depth = membersDepth (jsonFields i.fields) + 2 := by
  simp [json, Json.Value.depth, membersDepth]

/-- Objects in objects around a field type, with a name that needs escapes, beside an array that has
a format and an empty list of members. -/
def nested (inner : FieldType) : Nat → Fields
  | 0 => [("\"\x01é", inner)]
  | n + 1 =>
    [("a", { kind := .object, members := some (nested inner n) }),
     ("b", { kind := .date, isArray := true, format := some .url, members := some [] })]

private theorem distinct_nested {inner : FieldType} (h : inner.Distinct) (n : Nat) :
    (nested inner n).Distinct := by
  induction n with
  | zero =>
    refine .intro (by simp [nested]) ?_
    rintro f hf
    rw [List.mem_singleton.mp hf]
    exact h
  | succ n ih =>
    refine .intro (by simp [nested]) ?_
    rintro f hf fields hfields
    rcases List.mem_pair.mp hf with rfl | rfl
    · cases hfields
      exact ih
    · cases hfields
      exact .intro List.nodup_nil nofun

private theorem depth_nested (inner : FieldType) (n : Nat) :
    membersDepth (jsonFields (nested inner n)) = 2 * n + inner.json.depth := by
  induction n with
  | zero => simp [nested, jsonFields, membersDepth]
  | succ n ih =>
    have hpos := inner.depth_json_pos
    simp [nested, jsonFields, membersDepth, FieldType.json, Json.Value.ofMembers,
      Json.Value.depth, ih]
    omega

/-- As many levels as a reader allows, and one more: an empty list of members is an object too. -/
theorem nested_decoded :
    let fits : Interface := ⟨"I", nested { kind := .number, isOptional := true } 62⟩
    let deep : Interface := ⟨"I", nested { kind := .number, members := some [] } 62⟩
    fits.fields.Distinct ∧ fits.json.depth = 127 ∧
      decode decoder (.ofText fits.json.text.toList) = .ok fits ∧
      deep.fields.Distinct ∧ deep.json.depth = 128 ∧
      decode decoder (.ofText deep.json.text.toList) = .error .tooDeep := by
  intro fits deep
  have hfits : fits.fields.Distinct := by
    refine distinct_nested (fun fields hfields => ?_) 62
    cases hfields
  have hdeep : deep.fields.Distinct := by
    refine distinct_nested (fun fields hfields => ?_) 62
    cases hfields
    exact .intro List.nodup_nil nofun
  have hmost : fits.json.depth = 127 := by
    rw [depth_json, depth_nested]
    rfl
  have hmore : deep.json.depth = 128 := by
    rw [depth_json, depth_nested]
    rfl
  exact ⟨hfits, hmost, (decode_text fits hfits).1 (Nat.le_of_eq hmost),
    hdeep, hmore, (decode_text deep hdeep).2 (by rw [hmore]; decide)⟩

end Interface
end MockServer
