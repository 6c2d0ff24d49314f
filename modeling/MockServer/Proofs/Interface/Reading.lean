import MockServer.Proofs.Interface.Declaration
import MockServer.Proofs.Interface.Print

/-!
Declarations that are read back from their own text, alone, as a line of a body and as a member of a
literal.
-/
namespace MockServer.Interface

open MockServer.Text

/-- Whether a character ends a member of a literal. -/
def endsMember (c : Char) : Bool := c == ',' || c == ';' || c == '\n'

/-- The name and the type can be told from what stands around them. -/
structure Declaration.Readable (d : Declaration) : Prop where
  name : IsIdentifier d.name
  tight : IsTight d.type
  nested : Nested (fun c => endsMember c = false) d.type
  uncommented : '/' ∉ d.type

theorem endsMember_of_isWord {c : Char} (h : isWord c = true) : endsMember c = false := by
  cases he : endsMember c with
  | false => rfl
  | true =>
    simp only [endsMember, Bool.or_eq_true, beq_iff_eq] at he
    rcases he with (rfl | rfl) | rfl <;> revert h <;> decide

private theorem ne_of_not_endsMember {c : Char} (h : endsMember c = false) :
    c ≠ ';' ∧ c ≠ '\n' := by
  constructor <;> (rintro rfl; cases h)

private theorem nested_of_isBlank {u : List Char} (hu : u.all isBlank = true) :
    Nested (fun _ => True) u := by
  refine nested_of_forall fun c hc => ?_
  obtain ⟨ho, hcl⟩ := not_bracket_of (by decide) (List.all_eq_true.mp hu c hc)
  exact ⟨ho, hcl, trivial⟩

/-- A semicolon outside of the brackets is not the last character that is no blank. -/
theorem getLast?_ne_of_nested {plain : Char → Prop} {a s u : List Char}
    (h : Nested plain (a ++ (s ++ u))) (hu : ∀ c ∈ u, isBlank c = true) (hp : ¬ plain ';') :
    s.getLast? ≠ some ';' := by
  intro hlast
  obtain ⟨init, rfl⟩ := List.getLast?_eq_some_iff.mp hlast
  have hsplit : a ++ (init ++ [';'] ++ u) = (a ++ init) ++ ';' :: u := by simp
  rw [hsplit] at h
  have hu : Nested (fun _ => True) (';' :: u) :=
    .char rfl rfl trivial (nested_of_isBlank (List.all_eq_true.mpr hu))
  have heq := h.depthOf_eq 0
  rw [depthOf_append, hu.depthOf_eq] at heq
  exact absurd heq (Nat.ne_of_gt (h.lt_depthOf rfl hp 0))

namespace Declaration

theorem withoutSemicolon_of_getLast? {s : List Char} (h : s.getLast? ≠ some ';') :
    withoutSemicolon s = s :=
  if_neg h

theorem withoutSemicolon_of_nested {s : List Char}
    (h : Nested (fun c => endsMember c = false) s) : withoutSemicolon s = s :=
  withoutSemicolon_of_getLast? (getLast?_ne_of_nested (a := []) (u := [])
    (by rwa [List.append_nil]) nofun (by decide))

variable {d : Declaration}

private theorem takeWhile_mark (isOptional : Bool) (type : List Char) :
    (mark isOptional ++ type).takeWhile isWord = [] := by
  have hq : isWord '?' = false := by decide
  have hc : isWord ':' = false := by decide
  cases isOptional <;> simp [mark, hq, hc]

private theorem dropWhile_mark (isOptional : Bool) (type : List Char) :
    (mark isOptional ++ type).dropWhile isWord = mark isOptional ++ type := by
  have hq : isWord '?' = false := by decide
  have hc : isWord ':' = false := by decide
  cases isOptional <;> simp [mark, hq, hc]

private theorem afterName?_mark (isOptional : Bool) (type : List Char) :
    afterName? (mark isOptional ++ type) = some (isOptional, ' ' :: type) := by
  cases isOptional <;> rfl

private theorem atStart?_text (h : d.Readable) : atStart? d.text = some d := by
  obtain ⟨⟨-, hw⟩, ht, hn, -⟩ := h
  rw [atStart?, text, List.takeWhile_append_of_pos hw, List.dropWhile_append_of_pos hw,
    takeWhile_mark, dropWhile_mark, afterName?_mark, List.append_nil]
  simp only
  rw [trimStart_cons_of_blank (by decide), ht.trimStart_eq, withoutSemicolon_of_nested hn]

private theorem read?_of_atStart? {c : Char} {rest : List Char} (hc : isWord c = true)
    (h : atStart? (c :: rest) = some d) : read? (c :: rest) = some d := by
  have hd : (c :: rest).dropWhile (!isWord ·) = c :: rest := by simp [hc]
  rw [read?_of_cons hd, h]
  rfl

private theorem read?_text (h : d.Readable) : read? d.text = some d := by
  obtain ⟨c, rest, hc⟩ := List.exists_cons_of_ne_nil h.name.1
  have hs := atStart?_text h
  rw [text, hc, List.cons_append] at hs ⊢
  exact read?_of_atStart? (h.name.2 c (hc ▸ List.mem_cons_self)) hs

private theorem opens_of_isIdentifier {name : List Char} (hn : IsIdentifier name)
    (isOptional : Bool)
    (s : List Char) : opens (name ++ (mark isOptional ++ s)) = true := by
  have hstart : trimStart (name ++ (mark isOptional ++ s)) = name ++ (mark isOptional ++ s) := by
    obtain ⟨⟨c, rest, rfl, hc⟩, -⟩ := hn.isTight
    exact trimStart_cons_of_not_blank hc _
  obtain ⟨hne, hw⟩ := hn
  rw [opens, hstart]
  simp only [List.takeWhile_append_of_pos hw, List.dropWhile_append_of_pos hw, takeWhile_mark,
    dropWhile_mark, afterName?_mark, List.append_nil]
  simpa using hne

private theorem isTight_text (h : d.Readable) : IsTight d.text := h.name.isTight.append _ h.tight

private theorem nested_text (h : d.Readable) : Nested (fun c => endsMember c = false) d.text := by
  have hname : Nested (fun c => endsMember c = false) d.name := by
    refine nested_of_forall fun c hc => ?_
    obtain ⟨ho, hcl⟩ := not_bracket_of (by decide) (h.name.2 c hc)
    exact ⟨ho, hcl, endsMember_of_isWord (h.name.2 c hc)⟩
  have hmark : Nested (fun c => endsMember c = false) (mark d.isOptional) := by
    cases d.isOptional with
    | true => exact .char rfl rfl rfl (.char rfl rfl rfl (.char rfl rfl rfl .nil))
    | false => exact .char rfl rfl rfl (.char rfl rfl rfl .nil)
  exact hname.append (hmark.append h.nested)

end Declaration

/-- The declaration of a piece, without the blanks around it. -/
def readPiece? (piece : List Char) : Option Declaration := Declaration.read? (trim piece)

private theorem readPiece?_text {d : Declaration} (h : d.Readable) :
    readPiece? d.text = some d := by
  rw [readPiece?, (Declaration.isTight_text h).trim_eq, Declaration.read?_text h]

private theorem readPiece?_nil : readPiece? [] = none := by
  rw [readPiece?, show trim [] = [] from rfl, Declaration.read?]
  rfl

private theorem readPiece?_cons_of_blank {c : Char} (h : isBlank c = true) (s : List Char) :
    readPiece? (c :: s) = readPiece? s := by
  rw [readPiece?, trim_cons_of_blank h, readPiece?]

/-- The declarations in the body of a literal. -/
def membersIn (body : List Char) : List Declaration :=
  (cutFrom endsMember 0 body).filterMap readPiece?

namespace Declaration

/-- The field that a declaration gives to its model. -/
def field (d : Declaration) : String × FieldType := (String.ofList d.name, d.fieldType)

/-- A declaration has the members of its literal, by name. -/
theorem fieldType_eq (d : Declaration) :
    d.fieldType =
      let isArray := (arrayElement? d.cleanType).isSome
      match Kind.classify d.baseType with
      | .object =>
        { kind := .object, isArray, isOptional := d.isOptional
          members := some (fieldsOf (membersOf d.baseType)) }
      | .string =>
        { kind := .string, isArray, isOptional := d.isOptional
          format := StringFormat.infer? d.name d.cleanType }
      | kind => { kind, isArray, isOptional := d.isOptional } := by
  rw [fieldType]
  cases Kind.classify d.baseType <;>
    simp only [fieldsOf, List.map_attach_eq_pmap, List.pmap_eq_map]

end Declaration

/-- What holds of a declaration when it holds of the members of its literal holds of all. -/
theorem Declaration.induction {P : Declaration → Prop}
    (h : ∀ d, (∀ m ∈ membersOf d.baseType, P m) → P d) (d : Declaration) : P d := by
  induction hlen : d.type.length using Nat.strongRecOn generalizing d with | _ len ih
  refine h d fun m hm => ih m.type.length ?_ m rfl
  exact hlen ▸ Nat.lt_of_lt_of_le (length_type_of_mem_members hm) (length_baseType_le d)

private theorem membersOf_literal {body : List Char} (h : Nested (fun _ => True) body) :
    membersOf ('{' :: (body ++ ['}'])) = membersIn body := by
  have hbody : literalBody ('{' :: (body ++ ['}'])) = body := insideBrace_of_nested h
  rw [membersOf, hbody]
  rfl

theorem membersIn_nil : membersIn [] = [] := by
  rw [membersIn, cutFrom_nil, List.filterMap_cons_none readPiece?_nil, List.filterMap_nil]

theorem membersIn_blank {u : List Char} (hu : u.all isBlank = true) (s : List Char) :
    membersIn (u ++ s) = membersIn s := by
  induction u with
  | nil => rfl
  | cons c u ih =>
    rw [List.all_cons, Bool.and_eq_true] at hu
    obtain ⟨hc, hu⟩ := hu
    rw [← ih hu, List.cons_append]
    generalize u ++ s = t
    by_cases hs : endsMember c = true
    · rw [membersIn, cutFrom_separator hs, List.filterMap_cons_none readPiece?_nil]
      rfl
    · obtain ⟨ho, hcl⟩ := not_bracket_of (by decide) hc
      rw [membersIn, cutFrom_cons fun _ => Bool.eq_false_iff.mpr hs, depthAfter_plain ho hcl,
        membersIn]
      cases cutFrom endsMember 0 t with
      | nil => rfl
      | cons p ps =>
        rw [List.modifyHead_cons, List.filterMap_cons, List.filterMap_cons,
          readPiece?_cons_of_blank hc]

theorem membersIn_piece {p : List Char} (hp : Nested (fun c => endsMember c = false) p) :
    membersIn p = (readPiece? p).toList := by
  have hcut := hp.cutFrom_append (d := 0) (fun _ => eq_false_of_bracket (by decide))
    (fun _ _ hc => hc) []
  rw [List.append_nil, cutFrom_nil, List.modifyHead_cons, List.append_nil] at hcut
  rw [membersIn, hcut]
  cases hr : readPiece? p <;> simp [hr]

/-- The first piece is read before the others. -/
theorem membersIn_cons {p : List Char} (hp : Nested (fun c => endsMember c = false) p) {c : Char}
    (hc : endsMember c = true) (s : List Char) :
    membersIn (p ++ c :: s) = (readPiece? p).toList ++ membersIn s := by
  rw [membersIn, hp.cutFrom_append (fun _ => eq_false_of_bracket (by decide)) (fun _ _ hc => hc),
    cutFrom_separator hc, List.modifyHead_cons, List.append_nil, membersIn]
  cases hr : readPiece? p <;> simp [hr]

private theorem membersIn_text {d : Declaration} (h : d.Readable) (s : List Char) :
    membersIn (d.text ++ ';' :: s) = d :: membersIn s := by
  rw [membersIn_cons (Declaration.nested_text h) (by decide), readPiece?_text h]
  rfl

theorem nested_literalInside (gap : Gap) {ds : List Declaration} (h : ∀ d ∈ ds, d.Readable) :
    Nested (fun _ => True) (literalInside gap ds) := by
  refine (Nested.flatMap fun d hd => ?_).append (nested_of_isBlank gap.close_blank)
  have htext := (Declaration.nested_text (h d hd)).mono (q := fun _ => True) fun _ _ => trivial
  exact (nested_of_isBlank gap.member_blank).append (htext.append (.char rfl rfl trivial .nil))

private theorem membersIn_literalInside (gap : Gap) {ds : List Declaration}
    (h : ∀ d ∈ ds, d.Readable) :
    membersIn (literalInside gap ds) = ds := by
  unfold literalInside
  induction ds with
  | nil =>
    rw [List.flatMap_nil, List.nil_append, ← List.append_nil gap.close,
      membersIn_blank gap.close_blank, membersIn_nil]
  | cons d ds ih =>
    rw [List.flatMap_cons, List.append_assoc, List.append_assoc, membersIn_blank gap.member_blank,
      List.append_assoc, List.singleton_append, membersIn_text (h d List.mem_cons_self),
      ih fun e he => h e (List.mem_cons_of_mem d he)]

/-- The members of a literal are read back in their order, however they are laid out. -/
theorem membersOf_literalText (gap : Gap) {ds : List Declaration} (h : ∀ d ∈ ds, d.Readable) :
    membersOf (literalText gap ds) = ds :=
  (membersOf_literal (nested_literalInside gap h)).trans (membersIn_literalInside gap h)

theorem nested_linesText {ds : List Declaration} (h : ∀ d ∈ ds, d.Readable) :
    Nested (fun _ => True) (linesText ds) := by
  refine Nested.flatMap fun d hd => ?_
  have htext := (Declaration.nested_text (h d hd)).mono (q := fun _ => True) fun _ _ => trivial
  exact htext.append (.char rfl rfl trivial (.char rfl rfl trivial .nil))

private theorem isGroup_newline : IsGroup ['\n'] := by
  refine ⟨rfl, rfl, ?_, ?_⟩
  all_goals
    intro a b hab hb
    rcases a with - | ⟨c, a⟩
    · exact absurd (List.cons.inj hab).2.symm hb
    · simp at hab

theorem readPiece?_newline : readPiece? ['\n'] = none := by
  rw [readPiece?_cons_of_blank (by decide), readPiece?_nil]

/-- An entry ends at its semicolon, which stands at the end of a line. -/
structure IsEntry (s : List Char) : Prop where
  nested : Nested (fun c => c ≠ ';' ∧ c ≠ '\n') s
  opens : '\n' ∈ s → Declaration.opens s = true

private theorem IsEntry.isGroup {s : List Char} (h : IsEntry s) : IsGroup (s ++ [';', '\n']) :=
  isGroup_of_nested h.nested h.opens

private theorem filterMap_cutAtSemicolons {ss : List (List Char)} (h : ∀ s ∈ ss, IsEntry s) :
    ((ss.map (· ++ [';', '\n'])).flatMap cutAtSemicolons).filterMap readPiece? =
      ss.filterMap readPiece? := by
  induction ss with
  | nil => rfl
  | cons s ss ih =>
    have hcut : cutAtSemicolons (s ++ [';', '\n']) = [s, ['\n']] :=
      cutAtSemicolons_of_nested ((h s List.mem_cons_self).nested.mono fun _ hc => hc.1)
    have hs : (cutAtSemicolons (s ++ [';', '\n'])).filterMap readPiece? =
        (readPiece? s).toList := by
      rw [hcut, List.filterMap_cons, List.filterMap_cons_none readPiece?_newline]
      cases readPiece? s <;> rfl
    rw [List.map_cons, List.flatMap_cons, List.filterMap_append, hs, List.filterMap_cons,
      ih fun t ht => h t (List.mem_cons_of_mem s ht)]
    cases readPiece? s <;> rfl

/-- A body with a semicolon and a newline after each entry has the declarations of the entries. -/
theorem filterMap_entries {ss : List (List Char)} (h : ∀ s ∈ ss, IsEntry s) :
    (entries ('\n' :: ss.flatMap (· ++ [';', '\n']))).filterMap readPiece? =
      ss.filterMap readPiece? := by
  have hflat : '\n' :: ss.flatMap (· ++ [';', '\n']) =
      (['\n'] :: ss.map (· ++ [';', '\n'])).flatten := by
    rw [List.flatten_cons, List.flatMap_def]
    rfl
  have hgroups : ∀ w ∈ ['\n'] :: ss.map (· ++ [';', '\n']), IsGroup w := by
    intro w hw
    rcases List.mem_cons.mp hw with rfl | hw
    · exact isGroup_newline
    · obtain ⟨s, hs, rfl⟩ := List.mem_map.mp hw
      exact (h s hs).isGroup
  have hcut : cutAtSemicolons ['\n'] = [['\n']] := rfl
  rw [hflat, entries_flatten hgroups, List.flatMap_cons, List.filterMap_append,
    filterMap_cutAtSemicolons h, hcut, List.filterMap_cons_none readPiece?_newline]
  rfl

private theorem Declaration.isEntry_text {d : Declaration} (h : d.Readable) : IsEntry d.text :=
  ⟨(nested_text h).mono fun _ hc => ne_of_not_endsMember hc,
    fun _ => opens_of_isIdentifier h.name _ _⟩

/-- A body with a line for each declaration is read back in order. -/
theorem filterMap_entries_linesText {ds : List Declaration} (h : ∀ d ∈ ds, d.Readable) :
    (entries ('\n' :: linesText ds)).filterMap readPiece? = ds := by
  have hlines : linesText ds = (ds.map Declaration.text).flatMap (· ++ [';', '\n']) := by
    rw [linesText, List.flatMap_map]
  have hentries : ∀ s ∈ ds.map Declaration.text, IsEntry s := by
    intro s hs
    obtain ⟨d, hd, rfl⟩ := List.mem_map.mp hs
    exact Declaration.isEntry_text (h d hd)
  rw [hlines, filterMap_entries hentries, List.filterMap_map]
  conv_rhs => rw [← List.filterMap_some (l := ds)]
  exact List.filterMap_congr fun d hd => readPiece?_text (h d hd)

end MockServer.Interface
