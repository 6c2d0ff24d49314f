import MockServer.Proofs.Interface.Composition
import MockServer.Proofs.Interface.FieldForm
import MockServer.Proofs.Interface.Offsets

/-!
Models that are read are well formed and no larger than their text: every field takes up a colon of
its own, and every level of objects a brace.
-/
namespace MockServer

open MockServer.Text

mutual

/-- The fields below a field, at all levels. -/
def FieldType.size : FieldType → Nat
  | ⟨_, _, _, _, none⟩ => 0
  | ⟨_, _, _, _, some fields⟩ => fieldCount fields

/-- The fields of a model at all levels. -/
def fieldCount : List (String × FieldType) → Nat
  | [] => 0
  | (_, t) :: rest => 1 + t.size + fieldCount rest

end

mutual

/-- How many objects stand in one another, the field's own value included. -/
def FieldType.nesting : FieldType → Nat
  | ⟨_, _, _, _, none⟩ => 0
  | ⟨_, _, _, _, some fields⟩ => 1 + nesting fields

def nesting : List (String × FieldType) → Nat
  | [] => 0
  | (_, t) :: rest => max t.nesting (nesting rest)

end

namespace Fields

variable {name : String} {type : FieldType} {fields : Fields} {n : Nat}

private theorem fieldCount_insert_le :
    fieldCount (insert name type fields) ≤ fieldCount fields + (1 + type.size) := by
  induction fields with
  | nil => simp [insert, fieldCount]
  | cons f fields ih =>
    obtain ⟨m, t⟩ := f
    by_cases h : m = name
    · rw [insert, if_pos h, fieldCount, fieldCount]
      omega
    · rw [insert, if_neg h, fieldCount, fieldCount]
      omega

private theorem fieldCount_append (fields newer : Fields) :
    fieldCount (fields ++ newer) = fieldCount fields + fieldCount newer := by
  induction fields with
  | nil => exact (Nat.zero_add _).symm
  | cons f fields ih =>
    obtain ⟨m, t⟩ := f
    rw [List.cons_append, fieldCount, fieldCount, ih]
    exact (Nat.add_assoc _ _ _).symm

/-- A field that is declared again only counts once. -/
theorem fieldCount_ofList_le (declared : Fields) :
    fieldCount (ofList declared) ≤ fieldCount declared := by
  induction declared using List.reverseRecOn with
  | nil => exact Nat.le_refl 0
  | append_singleton declared d ih =>
    rw [ofList_concat, fieldCount_append]
    exact fieldCount_insert_le.trans (Nat.add_le_add_right ih _)

private theorem nesting_le_iff : nesting fields ≤ n ↔ ∀ f ∈ fields, f.2.nesting ≤ n := by
  induction fields with
  | nil => simp [nesting]
  | cons f fields ih =>
    obtain ⟨m, t⟩ := f
    rw [nesting, Nat.max_le, ih, List.forall_mem_cons]

private theorem mem_insert {f : String × FieldType} (h : f ∈ insert name type fields) :
    f = (name, type) ∨ f ∈ fields := by
  induction fields with
  | nil => exact .inl (List.mem_singleton.mp h)
  | cons g fields ih =>
    by_cases hg : g.1 = name
    · rw [insert, if_pos hg] at h
      rcases List.mem_cons.mp h with rfl | h
      · exact .inl (by rw [hg])
      · exact .inr (List.mem_cons_of_mem g h)
    · rw [insert, if_neg hg] at h
      rcases List.mem_cons.mp h with rfl | h
      · exact .inr List.mem_cons_self
      · exact (ih h).imp_right (List.mem_cons_of_mem g)

/-- A field of a model is declared with that type. -/
theorem mem_of_mem_ofList {declared : Fields} {f : String × FieldType} (h : f ∈ ofList declared) :
    f ∈ declared := by
  induction declared using List.reverseRecOn with
  | nil => cases h
  | append_singleton declared d ih =>
    rw [ofList_concat] at h
    rcases mem_insert h with rfl | h
    · simp
    · exact List.mem_append_left _ (ih h)

end Fields

namespace Interface

variable {s : List Char} {d : Declaration} {ds : List Declaration}

private theorem isIdentifier_of_read? (h : Declaration.read? s = some d) : IsIdentifier d.name := by
  obtain ⟨part, -, hpart, -⟩ := (read?_iff_endsInField s d.name).mp ⟨d, h, rfl⟩
  exact hpart.named

private theorem mem_brace_of_classify {base : List Char} (h : Kind.classify base = .object) :
    '\x7b' ∈ base := by
  unfold Kind.classify at h
  split_ifs at h with hhead _ _ _ _ hbrace
  · exact List.mem_of_head? hhead
  · exact List.contains_iff_mem.mp hbrace

/-! Declarations that take up parts of a text -/

private theorem wellFormed_fieldsOf
    (h : ∀ d ∈ ds, WellFormedField (String.ofList d.name) d.fieldType) :
    WellFormedFields (fieldsOf ds) := by
  refine .intro (Fields.nodup_names_ofList _) fun f hf => ?_
  obtain ⟨d, hd, rfl⟩ := List.mem_map.mp (Fields.mem_of_mem_ofList hf)
  exact h d hd

private theorem fieldCount_fieldsOf_le (hsub : (ds.flatMap fun d => ':' :: d.type).Sublist s)
    (h : ∀ d ∈ ds, d.fieldType.size ≤ d.type.count ':') :
    fieldCount (fieldsOf ds) ≤ s.count ':' := by
  refine (Fields.fieldCount_ofList_le _).trans (Nat.le_trans ?_ (hsub.count_le ':'))
  clear hsub
  induction ds with
  | nil => exact Nat.le_refl 0
  | cons d ds ih =>
    have hd := h d List.mem_cons_self
    have hrest := ih fun e he => h e (List.mem_cons_of_mem d he)
    rw [List.map_cons, fieldCount, List.flatMap_cons, List.count_append, List.count_cons_self]
    omega

private theorem nesting_fieldsOf_le (hsub : (ds.flatMap fun d => ':' :: d.type).Sublist s)
    (h : ∀ d ∈ ds, d.fieldType.nesting ≤ d.type.count '\x7b') :
    nesting (fieldsOf ds) ≤ s.count '\x7b' := by
  refine Fields.nesting_le_iff.mpr fun f hf => ?_
  obtain ⟨d, hd, rfl⟩ := List.mem_map.mp (Fields.mem_of_mem_ofList hf)
  have htype : d.type.Sublist s := (List.sublist_cons_self ':' d.type).trans
    ((List.sublist_flatten_of_mem (List.mem_map_of_mem hd)).trans hsub)
  exact (h d hd).trans (htype.count_le _)

namespace Declaration

/-- The fields inside a type take up colons of the type. -/
theorem size_fieldType_le (d : Declaration) : d.fieldType.size ≤ d.type.count ':' := by
  induction d using Declaration.induction with
  | h d ih =>
    have hbase : (d.baseType.count ':') ≤ d.type.count ':' := (baseType_sublist d).count_le ':'
    rw [fieldType_eq]
    cases hkind : Kind.classify d.baseType with
    | object =>
      have hbody := (List.sublist_cons_self _ _).trans
        (brace_literalBody_sublist (mem_brace_of_classify hkind))
      simp only [FieldType.size]
      exact (fieldCount_fieldsOf_le ((membersOf_sublist d.baseType).trans hbody) ih).trans hbase
    | _ => exact Nat.zero_le _

/-- An object in a type takes up an opening brace of the type. -/
theorem nesting_fieldType_le (d : Declaration) : d.fieldType.nesting ≤ d.type.count '\x7b' := by
  induction d using Declaration.induction with
  | h d ih =>
    have hbase := (baseType_sublist d).count_le '\x7b'
    rw [fieldType_eq]
    cases hkind : Kind.classify d.baseType with
    | object =>
      have hbody := (brace_literalBody_sublist (mem_brace_of_classify hkind)).count_le '\x7b'
      have hinside := nesting_fieldsOf_le (membersOf_sublist d.baseType) ih
      rw [List.count_cons_self] at hbody
      simp only [FieldType.nesting]
      omega
    | _ => exact Nat.zero_le _

/-- A declaration with a proper name has a proper shape. -/
theorem wellFormed_fieldType (h : IsIdentifier d.name) :
    WellFormedField (String.ofList d.name) d.fieldType := by
  induction d using Declaration.induction with
  | h d ih =>
    have hmembers : WellFormedFields (fieldsOf (membersOf d.baseType)) := by
      refine wellFormed_fieldsOf fun m hm => ih m hm ?_
      obtain ⟨piece, -, hread⟩ := List.mem_filterMap.mp hm
      exact isIdentifier_of_read? hread
    have hname : (String.ofList d.name).toList = d.name := String.toList_ofList
    have hid : IsIdentifier (String.ofList d.name).toList := by rwa [hname]
    rw [fieldType_eq]
    cases Kind.classify d.baseType with
    | object =>
      dsimp only
      refine .intro hid ⟨fun _ => rfl, fun _ => rfl⟩ nofun nofun fun fields hfields => ?_
      exact Option.some.inj hfields ▸ hmembers
    | string =>
      refine .intro hid ⟨nofun, nofun⟩ (fun _ => rfl) (fun _ => ?_) nofun
      rw [hname, StringFormat.rank_infer?]
      exact Nat.min_le_left _ _
    | _ =>
      dsimp only
      exact .intro hid ⟨nofun, nofun⟩ nofun nofun nofun

end Declaration

/-! The whole text -/

private theorem isIdentifier_of_nameAfterKeyword? {name : List Char}
    (h : nameAfterKeyword? s = some name) : IsIdentifier name := by
  revert h
  fun_cases nameAfterKeyword? s with
  | case2 _ _ rest _ _ hne =>
    intro h
    obtain rfl := Option.some.inj h
    exact ⟨hne, fun c hc => List.mem_takeWhile_imp hc⟩
  | _ => nofun

private theorem isIdentifier_of_declaredName? {name : List Char} (h : declaredName? s = some name) :
    IsIdentifier name := by
  induction s with
  | nil => cases h
  | cons c s ih =>
    rw [declaredName?] at h
    split at h
    next word hword => exact isIdentifier_of_nameAfterKeyword? (hword.trans h)
    next => exact ih h

private theorem isIdentifier_of_name (source : List Char) :
    IsIdentifier (ofText source).name.toList := by
  show IsIdentifier
    (((declaredName? (headerOf (withoutComments source))).map String.ofList).getD unknownName).toList
  cases h : declaredName? (headerOf (withoutComments source)) with
  | none => exact (by decide : IsIdentifier unknownName.toList)
  | some name =>
    have hname : (String.ofList name).toList = name := String.toList_ofList
    rw [Option.map_some, Option.getD_some, hname]
    exact isIdentifier_of_declaredName? h

/-- A model that is read is well formed, with a colon of the text for each field and an opening brace
for each level of objects. The reader that goes by offsets comes to the same model, so no offset is
out of range, no depth falls below zero, and each type is shorter than the one around it. -/
theorem parse_wellFormed (source : String) :
    readByOffset? source = some (parse source) ∧ (parse source).WellFormed ∧
      nesting (parse source).fields ≤ source.toList.count '\x7b' ∧
      fieldCount (parse source).fields ≤ source.toList.count ':' := by
  have hsub := declarationsOf_sublist (withoutComments source.toList)
  have hcount {c : Char} (hc : c ≠ '\n') :
      (withoutComments source.toList ++ ['\n']).count c ≤ source.toList.count c := by
    have hcomments := ((withoutLines_sublist _).trans (withoutBlocks_sublist source.toList)).count_le c
    rw [List.count_append, List.count_cons_of_ne (Ne.symm hc)]
    exact hcomments
  have hfields : (parse source).fields = fieldsOf (declarationsOf (withoutComments source.toList)) :=
    fields_ofText source.toList
  refine ⟨readByOffset?_eq source, ⟨isIdentifier_of_name source.toList, ?_⟩, ?_, ?_⟩
  all_goals rw [hfields]
  · refine wellFormed_fieldsOf fun d hd => Declaration.wellFormed_fieldType ?_
    obtain ⟨piece, -, hread⟩ := List.mem_filterMap.mp hd
    exact isIdentifier_of_read? hread
  · exact (nesting_fieldsOf_le hsub fun d _ => d.nesting_fieldType_le).trans (hcount (by decide))
  · exact (fieldCount_fieldsOf_le hsub fun d _ => d.size_fieldType_le).trans (hcount (by decide))

end Interface
end MockServer
