import MockServer.Proofs.Json.Record
import MockServer.Proofs.Mock.Completion
import MockServer.Proofs.Number.Order

/-!
Records when omission is certain or impossible: the keys no longer depend on the words. Fields that
are certain to be left out draw nothing, so the model might as well not have them.
-/
namespace MockServer

mutual

/-- The type without optional fields, at every level. -/
def FieldType.required : FieldType → FieldType
  | ⟨kind, isArray, isOptional, format, some fields⟩ =>
    ⟨kind, isArray, isOptional, format, some (requiredFields fields)⟩
  | ⟨kind, isArray, isOptional, format, none⟩ => ⟨kind, isArray, isOptional, format, none⟩

def requiredFields : List (String × FieldType) → List (String × FieldType)
  | [] => []
  | (name, t) :: rest =>
    if t.isOptional then requiredFields rest else (name, t.required) :: requiredFields rest

end

/-- The interface without optional fields, at every level. -/
def Interface.required (i : Interface) : Interface := { i with fields := requiredFields i.fields }

private theorem FieldType.isArray_required (t : FieldType) : t.required.isArray = t.isArray := by
  obtain ⟨_, _, _, _, _ | _⟩ := t <;> rw [required]

private theorem FieldType.isOptional_required (t : FieldType) :
    t.required.isOptional = t.isOptional := by
  obtain ⟨_, _, _, _, _ | _⟩ := t <;> rw [required]

namespace Mock

open MockServer.Random MockServer.Time MockServer.Number

mutual

/-- A single value of a field type in which each object has the keys of the fields that are kept,
in declared order. A value of a kind without parts has no keys. -/
inductive KeyedElement (keep : FieldType → Bool) : FieldType → Json.Value → Prop
  | scalar {t : FieldType} {v : Json.Value} (kind : t.kind ≠ .object) (leaf : v.depth = 0) :
    KeyedElement keep t v
  | bare {t : FieldType} (kind : t.kind = .object) (members : t.members = none) :
    KeyedElement keep t (.object [])
  | object {t : FieldType} {fields : Fields} {ms : List (String × Json.Value)}
    (kind : t.kind = .object) (members : t.members = some fields)
    (keyed : KeyedFields keep fields ms) : KeyedElement keep t (.object ms)

/-- The value of a field, with such objects in it. -/
inductive KeyedValue (keep : FieldType → Bool) : FieldType → Json.Value → Prop
  | single {t : FieldType} {v : Json.Value} (one : t.isArray = false)
    (keyed : KeyedElement keep t v) : KeyedValue keep t v
  | array {t : FieldType} {vs : List Json.Value} (many : t.isArray = true)
    (keyed : ∀ v ∈ vs, KeyedElement keep t v) : KeyedValue keep t (.array vs)

/-- The members of an object: those of the kept fields, one for each, and with such objects in
them. -/
inductive KeyedFields (keep : FieldType → Bool) : Fields → List (String × Json.Value) → Prop
  | intro {fields : Fields} {ms : List (String × Json.Value)}
    (keys : ms.map (·.1) = (fields.filter (keep ·.2)).map (·.1))
    (keyed : ∀ p ∈ (fields.filter (keep ·.2)).zip ms, KeyedValue keep p.1.2 p.2.2) :
    KeyedFields keep fields ms

end

variable {s : GeneratorSettings} {now : Instant} {keep : FieldType → Bool}

/-- A setting under which the type of a field alone decides whether the field is left out. -/
def Decides (s : GeneratorSettings) (keep : FieldType → Bool) : Prop :=
  ∀ (t : FieldType) (omitted : Bool),
    IsResult (if t.isOptional then chance s.omitProbability else pure false) omitted →
      omitted = !keep t

private theorem decides_of_le_zero (h : s.optionalOmitProbability.le .zero = true) :
    Decides s fun _ => true := by
  have hmagnitude := s.magnitude_omitProbability h
  have hone : s.omitProbability ≠ .one := by
    intro heq
    rw [heq] at hmagnitude
    exact absurd hmagnitude (by decide)
  intro t omitted homitted
  split at homitted
  · rw [chance, if_neg hone, Binary64.scaledFloor_of_magnitude_eq_zero hmagnitude] at homitted
    obtain ⟨w, -, rfl⟩ := isResult_return homitted
    exact decide_eq_false (Nat.not_lt_zero _)
  · exact isResult_pure homitted

private theorem chance_one : chance Binary64.one = pure true := if_pos rfl

private theorem decides_of_one_le (h : Binary64.one.le s.optionalOmitProbability = true) :
    Decides s fun t => !t.isOptional := by
  intro t omitted homitted
  rw [s.omitProbability_eq_one h, chance_one] at homitted
  split at homitted
  next ht => rw [isResult_pure homitted, Bool.not_not, ht]
  next ht => rw [isResult_pure homitted, Bool.not_not, Bool.eq_false_iff.mpr ht]

private theorem keyedFields_omitted {f : String × FieldType} {fields : Fields}
    {ms : List (String × Json.Value)} (hf : keep f.2 = false) (h : KeyedFields keep fields ms) :
    KeyedFields keep (f :: fields) ms := by
  obtain ⟨keys, keyed⟩ := h
  have hfilter : (f :: fields).filter (keep ·.2) = fields.filter (keep ·.2) :=
    List.filter_cons_of_neg (by simp [hf])
  exact .intro (hfilter ▸ keys) (hfilter ▸ keyed)

private theorem keyedFields_present {f : String × FieldType} {fields : Fields} {v : Json.Value}
    {ms : List (String × Json.Value)} (hf : keep f.2 = true) (hv : KeyedValue keep f.2 v)
    (h : KeyedFields keep fields ms) : KeyedFields keep (f :: fields) ((f.1, v) :: ms) := by
  obtain ⟨keys, keyed⟩ := h
  have hfilter : (f :: fields).filter (keep ·.2) = f :: fields.filter (keep ·.2) :=
    List.filter_cons_of_pos hf
  refine .intro ?_ ?_
  · rw [hfilter, List.map_cons, List.map_cons, keys]
  · rw [hfilter, List.zip_cons_cons, List.forall_mem_cons]
    exact ⟨hv, keyed⟩

section

variable [Phrasebook]

private theorem depth_of_fitsElement {limit : Nat} {t : FieldType} {j : Json.Value}
    (hk : t.kind ≠ .object) (h : FitsElement limit now t j) : j.depth = 0 := by
  cases h with
  | number | boolean | date | uuid | words | sample => rfl
  | bare kind | object kind => exact absurd kind hk

private theorem keyedValue_of_isResult {t : FieldType} {v : Value}
    (ht : ∀ w, IsResult (element s now t) w → KeyedElement keep t w.json)
    (h : IsResult (value s now t) v) : KeyedValue keep t v.json := by
  cases ha : t.isArray with
  | true =>
    rw [value, if_pos ha] at h
    obtain ⟨vs, rfl, -, -, hvs⟩ := isResult_repeated h
    rw [Value.json, jsonItems_eq_map]
    refine .array ha fun j hj => ?_
    obtain ⟨w, hw, rfl⟩ := List.mem_map.mp hj
    exact ht w (hvs w hw)
  | false =>
    rw [value, ha] at h
    exact .single ha (ht v h)

mutual

private theorem keyedElement_of_isResult (hd : Decides s keep) {t : FieldType} {v : Value}
    (h : IsResult (element s now t) v) : KeyedElement keep t v.json := by
  have hleaf (hk : t.kind ≠ .object) : KeyedElement keep t v.json :=
    .scalar hk (depth_of_fitsElement hk (fitsElement_of_isResult h))
  match t with
  | ⟨.object, _, _, _, some fields⟩ =>
    rw [element] at h
    obtain ⟨ms, hms, rfl⟩ := isResult_return h
    exact .object rfl rfl (keyedFields_of_isResult hd hms)
  | ⟨.object, _, _, _, none⟩ =>
    rw [isResult_pure h]
    exact .bare rfl rfl
  | ⟨.string, _, _, _, _⟩ => exact hleaf nofun
  | ⟨.number, _, _, _, _⟩ => exact hleaf nofun
  | ⟨.boolean, _, _, _, _⟩ => exact hleaf nofun
  | ⟨.date, _, _, _, _⟩ => exact hleaf nofun

private theorem keyedFields_of_isResult (hd : Decides s keep) {fields : Fields}
    {ms : List (String × Value)} (h : IsResult (members s now fields) ms) :
    KeyedFields keep fields (jsonMembers ms) := by
  match fields with
  | [] =>
    rw [isResult_pure h]
    exact .intro rfl (by simp)
  | (name, t) :: fields =>
    rw [members_cons] at h
    obtain ⟨omitted, homitted, h⟩ := isResult_bind h
    have hkeep := hd t omitted homitted
    cases omitted with
    | true =>
      exact keyedFields_omitted (by simpa using hkeep.symm) (keyedFields_of_isResult hd h)
    | false =>
      obtain ⟨v, hv, h⟩ := isResult_bind h
      obtain ⟨later, hlater, rfl⟩ := isResult_return h
      exact keyedFields_present (by simpa using hkeep.symm)
        (keyedValue_of_isResult (fun _ hw => keyedElement_of_isResult hd hw) hv)
        (keyedFields_of_isResult hd hlater)

end

mutual

private theorem element_required (hone : s.omitProbability = .one) (t : FieldType) :
    element s now t.required = element s now t := by
  match t with
  | ⟨.object, _, _, _, some fields⟩ =>
    rw [FieldType.required, element, element, members_required hone fields]
  | ⟨kind, _, _, _, none⟩ => rw [FieldType.required]
  | ⟨.string, _, _, _, some _⟩ => rw [FieldType.required]; rfl
  | ⟨.number, _, _, _, some _⟩ => rw [FieldType.required]; rfl
  | ⟨.boolean, _, _, _, some _⟩ => rw [FieldType.required]; rfl
  | ⟨.date, _, _, _, some _⟩ => rw [FieldType.required]; rfl

/-- A field that is certain to be left out has no part in the draws. -/
theorem members_required (hone : s.omitProbability = .one) (fields : List (String × FieldType)) :
    members s now (requiredFields fields) = members s now fields := by
  match fields with
  | [] => rw [requiredFields]
  | (name, t) :: fields =>
    have hfields := members_required hone fields
    rw [requiredFields, members_cons]
    cases ht : t.isOptional with
    | true =>
      rw [hone, chance_one]
      exact hfields
    | false =>
      have hvalue : value s now t.required = value s now t := by
        rw [value, value, t.isArray_required, element_required hone t]
      rw [if_neg Bool.false_ne_true, if_neg Bool.false_ne_true, members_cons,
        t.isOptional_required, ht, hvalue, hfields]
      rfl

end

/-- With a probability of at most zero a record has the keys of all fields, at every level, and
with one of at least one those of the fields that are not optional, whatever the words are. The
optional fields then have no part in the draws. -/
theorem keys_of_extreme_probability (s : GeneratorSettings) (now : Instant) (i : Interface) :
    (s.optionalOmitProbability.le .zero = true →
      ∀ words v rest, record s now i words = some (v, rest) →
        ∃ ms, v.json = .object ms ∧ KeyedFields (fun _ => true) i.fields ms) ∧
    (Binary64.one.le s.optionalOmitProbability = true →
      (∀ words v rest, record s now i words = some (v, rest) →
        ∃ ms, v.json = .object ms ∧ KeyedFields (fun t => !t.isOptional) i.fields ms) ∧
      record s now i = record s now i.required) := by
  have hrecord {keep : FieldType → Bool} (hd : Decides s keep) (words : List UInt64) (v : Value)
      (rest : List UInt64) (h : record s now i words = some (v, rest)) :
      ∃ ms, v.json = .object ms ∧ KeyedFields keep i.fields ms := by
    obtain ⟨ms, hms, rfl⟩ := isResult_return ⟨words, rest, h⟩
    exact ⟨jsonMembers ms, rfl, keyedFields_of_isResult hd hms⟩
  constructor
  · intro hzero
    exact hrecord (decides_of_le_zero hzero)
  · intro hle
    refine ⟨hrecord (decides_of_one_le hle), ?_⟩
    rw [record, record, Interface.required, members_required (s.omitProbability_eq_one hle)]

end

/-- A negative zero as the probability. -/
def neverOmitting : GeneratorSettings := { optionalOmitProbability := Binary64.zero.neg }

def alwaysOmitting : GeneratorSettings := { optionalOmitProbability := .infinity }

/-- Records with all fields, and records without the two optional ones. -/
theorem orders_keys :
    (∃ words v rest ms, record neverOmitting ⟨0, 0⟩ orders words = some (v, rest) ∧
      v.json = .object ms ∧ KeyedFields (fun _ => true) orders.fields ms) ∧
    (∃ words v rest ms, record alwaysOmitting ⟨0, 0⟩ orders words = some (v, rest) ∧
      v.json = .object ms ∧ KeyedFields (fun t => !t.isOptional) orders.fields ms) ∧
    record alwaysOmitting ⟨0, 0⟩ orders = record alwaysOmitting ⟨0, 0⟩ orders.required := by
  obtain ⟨hall, -⟩ := keys_of_extreme_probability neverOmitting ⟨0, 0⟩ orders
  obtain ⟨-, hextreme⟩ := keys_of_extreme_probability alwaysOmitting ⟨0, 0⟩ orders
  obtain ⟨hrequired, hsame⟩ := hextreme (by decide)
  have hcompletes (s : GeneratorSettings) : Random.Completes (record s ⟨0, 0⟩ orders) :=
    completes_record completes_samples orders
  obtain ⟨more, v, rest, hv⟩ := (hcompletes neverOmitting).ends []
  obtain ⟨others, w, later, hw⟩ := (hcompletes alwaysOmitting).ends []
  obtain ⟨ms, hms⟩ := hall (by decide) more v rest hv
  obtain ⟨ns, hns⟩ := hrequired others w later hw
  exact ⟨⟨more, v, rest, ms, hv, hms⟩, ⟨others, w, later, ns, hw, hns⟩, hsame⟩

end Mock
end MockServer
