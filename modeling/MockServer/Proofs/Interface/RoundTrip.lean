import MockServer.Proofs.Interface.Header
import MockServer.Proofs.Interface.Reading
import MockServer.Proofs.Interface.WellFormed

/-!
Parsing undoes printing: a well-formed model is read back from its text, whatever its layout.
-/
namespace MockServer.Interface

open MockServer.Text

variable {layout : List String → Gap}

namespace Declaration

variable {d : Declaration}

private theorem cleanType_of_readable (h : d.Readable) : d.cleanType = d.type := by
  rw [cleanType, h.tight.trim_eq, withoutSemicolon_of_nested h.nested, h.tight.trimEnd_eq]

end Declaration

private theorem arrayElement?_brackets {s : List Char} (h : IsTight s) :
    arrayElement? (s ++ arrayText true) = some s := by
  simp [arrayElement?, arrayText, h.trimEnd_eq]

private theorem arrayElement?_of_getLast? {s : List Char} (h : s.getLast? ≠ some ']') :
    arrayElement? s = none := by
  rw [arrayElement?]
  split
  next element hs =>
    refine absurd ?_ h
    rw [← List.head?_reverse, hs]
    rfl
  · rfl

private theorem arrayElement?_arrayText {s : List Char} (h : IsTight s) (hl : s.getLast? ≠ some ']')
    (isArray : Bool) : (arrayElement? (s ++ arrayText isArray)).isSome = isArray ∧
      (arrayElement? (s ++ arrayText isArray)).getD (s ++ arrayText isArray) = s := by
  cases isArray with
  | true =>
    rw [arrayElement?_brackets h]
    exact ⟨rfl, rfl⟩
  | false =>
    rw [arrayText, if_neg nofun, List.append_nil, arrayElement?_of_getLast? hl]
    exact ⟨rfl, rfl⟩

/-- What every type is before the brackets of an array. -/
structure IsElementText (s : List Char) : Prop where
  tight : IsTight s
  last : s.getLast? ≠ some ']'
  nested : Nested (fun c => endsMember c = false) s
  uncommented : '/' ∉ s

private theorem isElementText_of_isIdentifier {s : List Char} (h : IsIdentifier s) :
    IsElementText s := by
  refine ⟨h.isTight, ?_, nested_of_forall fun c hc => ?_, ?_⟩
  · intro hl
    exact not_mem_of_forall h.2 (by decide) (List.mem_of_getLast? hl)
  · obtain ⟨ho, hcl⟩ := not_bracket_of (by decide) (h.2 c hc)
    exact ⟨ho, hcl, endsMember_of_isWord (h.2 c hc)⟩
  · exact not_mem_of_forall h.2 (by decide)

private theorem isIdentifier_typeWord {kind : Kind} (hk : kind ≠ .object)
    (format : Option StringFormat) :
    IsIdentifier (typeWord kind format) := by
  cases kind with
  | object => exact absurd rfl hk
  | _ =>
    rcases format with - | f
    · decide
    · cases f <;> decide

private theorem uncommented_text {d : Declaration} (h : d.Readable) : '/' ∉ d.text := by
  have hmark : '/' ∉ mark d.isOptional := by cases d.isOptional <;> decide
  exact List.not_mem_append (not_mem_of_forall h.name.2 (by decide))
    (List.not_mem_append hmark h.uncommented)

private theorem uncommented_flatMap {ds : List Declaration} {before after : List Char}
    (h : ∀ d ∈ ds, d.Readable) (hbefore : '/' ∉ before) (hafter : '/' ∉ after) :
    '/' ∉ ds.flatMap fun d => before ++ (d.text ++ after) := by
  intro hm
  obtain ⟨d, hd, hm⟩ := List.mem_flatMap.mp hm
  exact List.not_mem_append hbefore (List.not_mem_append (uncommented_text (h d hd)) hafter) hm

private theorem isElementText_literalText (gap : Gap) {ds : List Declaration}
    (h : ∀ d ∈ ds, d.Readable) :
    IsElementText (literalText gap ds) := by
  have hlast : literalText gap ds = '\x7b' :: literalInside gap ds ++ ['\x7d'] := rfl
  refine ⟨⟨⟨'\x7b', _, rfl, by decide⟩, _, '\x7d', hlast, by decide⟩, ?_, ?_, ?_⟩
  · rw [hlast, List.getLast?_append]
    simp
  · exact .group (by decide) (nested_literalInside gap h) .nil
  · have hmembers : '/' ∉ ds.flatMap fun d => gap.member ++ (d.text ++ [';']) :=
      uncommented_flatMap h (not_mem_of_forall (List.all_eq_true.mp gap.member_blank) (by decide))
        (by decide)
    rw [hlast, List.cons_append]
    refine List.not_mem_cons_of_ne_of_not_mem (by decide) (List.not_mem_append ?_ (by decide))
    exact List.not_mem_append hmembers
      (not_mem_of_forall (List.all_eq_true.mp gap.close_blank) (by decide))

private theorem readable_of_isElementText {name s : List Char} (hn : IsIdentifier name)
    (hs : IsElementText s) (isOptional isArray : Bool) :
    Declaration.Readable ⟨name, isOptional, s ++ arrayText isArray⟩ := by
  cases isArray with
  | false =>
    rw [arrayText, if_neg nofun, List.append_nil]
    exact ⟨hn, hs.tight, hs.nested, hs.uncommented⟩
  | true =>
    have hb : IsTight ['[', ']'] := ⟨⟨'[', _, rfl, by decide⟩, ['['], ']', rfl, by decide⟩
    refine ⟨hn, hs.tight.append [] hb, hs.nested.append ?_, ?_⟩
    · exact .group (by decide) .nil .nil
    · exact List.not_mem_append hs.uncommented (by decide)

private theorem typeText_word {path : List String} {t : FieldType} (h : t.kind ≠ .object) :
    typeText layout path t = typeWord t.kind t.format := by
  obtain ⟨kind, _, _, format, members⟩ := t
  cases kind with
  | object => exact absurd rfl h
  | _ => rfl

private theorem isElementText_word {path : List String} {t : FieldType} (h : t.kind ≠ .object) :
    IsElementText (typeText layout path t) := by
  rw [typeText_word h]
  exact isElementText_of_isIdentifier (isIdentifier_typeWord h t.format)

mutual

private theorem isElementText_typeText {path : List String} {name : String} {t : FieldType}
    (h : WellFormedField name t) : IsElementText (typeText layout path t) := by
  match t, h with
  | ⟨.object, _, _, _, some fields⟩, .intro _ _ _ _ inner =>
    exact isElementText_literalText _ (readable_declarations (inner fields rfl))
  | ⟨.object, _, _, _, none⟩, .intro _ objects _ _ _ => exact absurd (objects.mp rfl) (by nofun)
  | ⟨.string, _, _, _, _⟩, _
  | ⟨.number, _, _, _, _⟩, _
  | ⟨.boolean, _, _, _, _⟩, _
  | ⟨.date, _, _, _, _⟩, _ =>
    exact isElementText_word (by nofun)

private theorem readable_declarations {path : List String} {fields : List (String × FieldType)}
    (h : WellFormedFields fields) : ∀ d ∈ declarations layout path fields, d.Readable := by
  match fields, h with
  | [], _ => exact fun d hd => by cases hd
  | (name, t) :: fields, h =>
    obtain ⟨hfield, hfields⟩ := h.of_cons
    intro d hd
    rw [declarations] at hd
    rcases List.mem_cons.mp hd with rfl | hd
    · exact readable_of_isElementText hfield.isIdentifier (isElementText_typeText hfield) _ _
    · exact readable_declarations hfields d hd

end

private theorem classify_typeWord {kind : Kind} (hk : kind ≠ .object)
    (format : Option StringFormat) :
    Kind.classify (typeWord kind format) = kind := by
  cases kind with
  | object => exact absurd rfl hk
  | _ =>
    rcases format with - | f
    · decide
    · cases f <;> decide

/-- The word of a string's format belongs to the rule of the format, also before brackets. -/
theorem rank_infer?_typeWord (format : Option StringFormat) (isArray : Bool) :
    StringFormat.rank (StringFormat.infer? [] (typeWord .string format ++ arrayText isArray)) =
      StringFormat.rank format := by
  rcases format with - | f
  · cases isArray <;> decide
  · cases f <;> cases isArray <;> decide

private theorem infer?_typeWord {name : List Char} {format : Option StringFormat} {isArray : Bool}
    (h : StringFormat.rank format ≤ StringFormat.rank (StringFormat.infer? name [])) :
    StringFormat.infer? name (typeWord .string format ++ arrayText isArray) = format := by
  apply StringFormat.rank_injective
  rw [StringFormat.rank_infer?, rank_infer?_typeWord]
  exact Nat.min_eq_right h

/-- The brackets of an array only make the field an array. -/
theorem fieldType_of_isElementText {name s : List Char} (hn : IsIdentifier name)
    (hs : IsElementText s) (isOptional isArray : Bool) :
    Declaration.fieldType ⟨name, isOptional, s ++ arrayText isArray⟩ =
      match Kind.classify s with
      | .object =>
        { kind := .object, isArray, isOptional, members := some (fieldsOf (membersOf s)) }
      | .string =>
        { kind := .string, isArray, isOptional
          format := StringFormat.infer? name (s ++ arrayText isArray) }
      | kind => { kind, isArray, isOptional } := by
  obtain ⟨hsome, hbase⟩ := arrayElement?_arrayText hs.tight hs.last isArray
  have hclean := Declaration.cleanType_of_readable
    (readable_of_isElementText hn hs isOptional isArray)
  rw [Declaration.fieldType_eq, Declaration.baseType, hclean, hbase]
  cases Kind.classify s <;> simp only [hsome]

private theorem fieldsOf_eq {ds : List Declaration} {fields : List (String × FieldType)}
    (hd : (fields.map (·.1)).Nodup)
    (h : ds.map (fun d => (String.ofList d.name, d.fieldType)) = fields) :
    fieldsOf ds = fields := by
  rw [fieldsOf, h, Fields.ofList_of_nodup hd]

private theorem fieldType_word {path : List String} {name : String} {t : FieldType}
    (h : WellFormedField name t) (hk : t.kind ≠ .object) :
    Declaration.fieldType
      ⟨name.toList, t.isOptional, typeText layout path t ++ arrayText t.isArray⟩ = t := by
  obtain ⟨named, objects, strings, format, inner⟩ := h
  rw [typeText_word hk, fieldType_of_isElementText named
    (isElementText_of_isIdentifier (isIdentifier_typeWord hk _)), classify_typeWord hk]
  obtain ⟨kind, isArray, isOptional, f, members⟩ := t
  obtain rfl : members = none := by simpa [hk] using objects
  cases kind with
  | object => exact absurd rfl hk
  | string => simp only [infer?_typeWord (format rfl)]
  | _ =>
    obtain rfl : f = none := by simpa using strings
    rfl

mutual

/-- A field's declaration gives back its type. -/
theorem fieldType_typeText {path : List String} {name : String} {t : FieldType}
    (h : WellFormedField name t) :
    Declaration.fieldType
      ⟨name.toList, t.isOptional, typeText layout path t ++ arrayText t.isArray⟩ = t := by
  match t, h with
  | ⟨.object, isArray, isOptional, format, some fields⟩, .intro named _ strings _ inner =>
    have hfields := inner fields rfl
    have hds : ∀ d ∈ declarations layout path fields, d.Readable := readable_declarations hfields
    have hclass : Kind.classify (literalText (layout path) (declarations layout path fields)) =
      .object := rfl
    obtain rfl : format = none := by simpa using strings
    rw [typeText, fieldType_of_isElementText named (isElementText_literalText _ hds), hclass,
      membersOf_literalText _ hds, fieldsOf_eq hfields.distinct (map_declarations hfields)]
  | ⟨.object, _, _, _, none⟩, .intro _ objects _ _ _ => exact absurd (objects.mp rfl) (by nofun)
  | ⟨.string, _, _, _, _⟩, h
  | ⟨.number, _, _, _, _⟩, h
  | ⟨.boolean, _, _, _, _⟩, h
  | ⟨.date, _, _, _, _⟩, h => exact fieldType_word h (by nofun)

private theorem map_declarations {path : List String} {fields : List (String × FieldType)}
    (h : WellFormedFields fields) :
    (declarations layout path fields).map (fun d => (String.ofList d.name, d.fieldType)) =
      fields := by
  match fields, h with
  | [], _ => rfl
  | (name, t) :: fields, h =>
    obtain ⟨hfield, hfields⟩ := h.of_cons
    rw [declarations, List.map_cons, fieldType_typeText hfield, map_declarations hfields,
      String.ofList_toList]

end

private theorem uncommented_linesText {ds : List Declaration} (h : ∀ d ∈ ds, d.Readable) :
    '/' ∉ linesText ds ++ ['\x7d'] := by
  have hlines : '/' ∉ ds.flatMap fun d => [] ++ (d.text ++ [';', '\n']) :=
    uncommented_flatMap h (by decide) (by decide)
  exact List.not_mem_append hlines (by decide)

/-- Parsing undoes printing at every depth of nesting, for every layout. -/
theorem parse_render (layout : List String → Gap) {i : Interface} (h : i.WellFormed) :
    parse (i.render layout) = i := by
  obtain ⟨hname, hfields⟩ := h
  have hds : ∀ d ∈ declarations layout [] i.fields, d.Readable := readable_declarations hfields
  have hbody : insideBrace ('\n' :: (linesText (declarations layout [] i.fields) ++ ['\x7d'])) =
      '\n' :: linesText (declarations layout [] i.fields) :=
    insideBrace_of_nested (.char rfl rfl trivial (nested_linesText hds))
  rw [parse, render, String.toList_ofList, ofText_headerText hname,
    withoutComments_eq_self (uncommented_linesText hds), hbody,
    filterMap_entries_linesText hds, fieldsOf_eq hfields.distinct (map_declarations hfields),
    String.ofList_toList]

/-- A list of objects with an object inside, a format by its type and one by its name. -/
def shop : Interface :=
  ⟨"Shop",
    [("owners", { kind := .object, isArray := true, members := some (
      [("mail", { kind := .string, format := some .email }),
       ("home", { kind := .object, isOptional := true, members := some (
         [("city", { kind := .string })]) })]) }),
     ("companyId", { kind := .string, format := some .company })]⟩

/-- Members on lines of their own at the first level, on one line below it. -/
def shopLayout (path : List String) : Gap :=
  if path.length = 1 then Gap.perLine 2 else Gap.oneLine

theorem parse_render_shop : shop.WellFormed ∧ parse (shop.render shopLayout) = shop := by
  have hcity : WellFormedField "city" { kind := .string } :=
    .intro (by decide) (by decide) (by decide) (by decide) nofun
  have hhome : WellFormedField "home" { kind := .object, isOptional := true, members := some (
      [("city", { kind := .string })]) } := by
    refine .intro (by decide) (by decide) (by decide) nofun ?_
    rintro _ ⟨⟩
    exact .intro (by decide) (by simpa using hcity)
  have hmail : WellFormedField "mail" { kind := .string, format := some .email } :=
    .intro (by decide) (by decide) (by decide) (by decide) nofun
  have howners : WellFormedField "owners" { kind := .object, isArray := true, members := some (
      [("mail", { kind := .string, format := some .email }),
       ("home", { kind := .object, isOptional := true, members := some (
         [("city", { kind := .string })]) })]) } := by
    refine .intro (by decide) (by decide) (by decide) nofun ?_
    rintro _ ⟨⟩
    exact .intro (by decide) (by simpa using ⟨hmail, hhome⟩)
  have hcompany : WellFormedField "companyId" { kind := .string, format := some .company } :=
    .intro (by decide) (by decide) (by decide) (by decide) nofun
  have h : shop.WellFormed := by
    refine ⟨by decide, .intro (by decide) ?_⟩
    simpa [shop] using ⟨howners, hcompany⟩
  exact ⟨h, parse_render shopLayout h⟩

end MockServer.Interface
