import MockServer.Proofs.Interface.FormatRank
import MockServer.Proofs.Text.Identifier

/-!
Models that an interface text can have: every name is an identifier and stands once at its level,
exactly the objects have members, and only strings have a format.
-/
namespace MockServer

open MockServer.Text

mutual

/-- The name of a string field alone gives its format or one of a later rule. -/
inductive WellFormedField : String → FieldType → Prop
  | intro {name : String} {t : FieldType} (named : IsIdentifier name.toList)
    (objects : t.kind = .object ↔ t.members.isSome)
    (strings : t.format.isSome → t.kind = .string)
    (format : t.kind = .string →
      StringFormat.rank t.format ≤ StringFormat.rank (StringFormat.infer? name.toList []))
    (inner : ∀ fields, t.members = some fields → WellFormedFields fields) : WellFormedField name t

inductive WellFormedFields : List (String × FieldType) → Prop
  | intro {fields : List (String × FieldType)} (distinct : (fields.map (·.1)).Nodup)
    (each : ∀ f ∈ fields, WellFormedField f.1 f.2) : WellFormedFields fields

end

def Interface.WellFormed (i : Interface) : Prop :=
  IsIdentifier i.name.toList ∧ WellFormedFields i.fields

theorem WellFormedField.isIdentifier {name : String} {t : FieldType} (h : WellFormedField name t) :
    IsIdentifier name.toList := by
  obtain ⟨named⟩ := h
  exact named

theorem WellFormedFields.distinct {fields : List (String × FieldType)}
    (h : WellFormedFields fields) : (fields.map (·.1)).Nodup := by
  obtain ⟨distinct⟩ := h
  exact distinct

theorem WellFormedFields.of_cons {name : String} {t : FieldType}
    {fields : List (String × FieldType)} (h : WellFormedFields ((name, t) :: fields)) :
    WellFormedField name t ∧ WellFormedFields fields := by
  obtain ⟨distinct, each⟩ := h
  exact ⟨each _ List.mem_cons_self, .intro (List.nodup_cons.mp distinct).2
    fun f hf => each f (List.mem_cons_of_mem _ hf)⟩

namespace Fields

private theorem insert_of_not_mem {name : String} {fields : Fields} (h : name ∉ fields.map (·.1))
    (t : FieldType) : insert name t fields = fields ++ [(name, t)] := by
  induction fields with
  | nil => rfl
  | cons f fields ih =>
    obtain ⟨hne, hmem⟩ := not_or.mp (fun hm => h (List.mem_cons.mpr hm))
    rw [insert, if_neg (Ne.symm hne), ih hmem, List.cons_append]

private theorem foldl_insert {fields declared : Fields}
    (h : ((fields ++ declared).map (·.1)).Nodup) :
    declared.foldl (fun fields d => insert d.1 d.2 fields) fields = fields ++ declared := by
  induction declared generalizing fields with
  | nil => exact (List.append_nil fields).symm
  | cons d declared ih =>
    have hd : d.1 ∉ fields.map (·.1) := by
      rw [List.map_append, List.nodup_append] at h
      intro hm
      exact h.2.2 d.1 hm d.1 List.mem_cons_self rfl
    rw [List.foldl_cons, insert_of_not_mem hd, ih]
    · simp
    · simpa using h

/-- Distinct names keep their types and their order. -/
theorem ofList_of_nodup {declared : Fields} (h : (declared.map (·.1)).Nodup) :
    ofList declared = declared := foldl_insert h

end Fields
end MockServer
