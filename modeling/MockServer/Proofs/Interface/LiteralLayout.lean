import Mathlib.Logic.Relation
import MockServer.Proofs.Interface.BrokenType
import MockServer.Proofs.Interface.Header
import MockServer.Proofs.Interface.Padding

/-!
The lines of an object literal. A field keeps its name and its shape when its literals are broken
over several lines, if its first line starts like a field: only such a line carries an open bracket
on.
-/
namespace MockServer.Interface

open MockServer.Text

/-- Between two texts a line may break: after an opening brace or a separator, or before a closing
brace. -/
def MayBreak (a b : List Char) : Prop :=
  (∃ c ∈ ['\x7b', ';', ','], a.getLast? = some c) ∨ b.head? = some '\x7d'

/-- One newline more, at such a place between braces. -/
def BreaksLine (s t : List Char) : Prop :=
  ∃ a b, s = a ++ b ∧ t = a ++ '\n' :: b ∧ a.count '\x7d' < a.count '\x7b' ∧ MayBreak a b

/-- A field entry on one line, as it stands before its semicolon. -/
structure IsOneLine (e : List Char) : Prop where
  line : '\n' ∉ e
  nested : Nested (· ≠ ';') e
  uncommented : withoutComments e = e

/-- The interface with one entry. -/
def textOfEntry (name entry : List Char) : String :=
  String.ofList (headerText name ++ '\n' :: (entry ++ [';', '\n', '\x7d']))

variable {a b e s t name : List Char} {d : Declaration}

/-! One line break -/

private theorem broken_of_mayBreak (h : MayBreak a b) : Broken (a ++ b) (a ++ '\n' :: b) := by
  rcases h with ⟨c, hedge, hc⟩ | h
  · obtain ⟨init, rfl⟩ := List.getLast?_eq_some_iff.mp hc
    rw [List.append_assoc, List.append_assoc]
    exact (Inserted.after hedge b).append_left init
  · obtain ⟨b, rfl⟩ := List.head?_eq_some_iff.mp h
    exact (Inserted.before (by decide) b).append_left a

private theorem Nested.count_eq {plain : Char → Prop} (h : Nested plain s) :
    s.count '\x7b' = s.count '\x7d' := by
  induction h with
  | nil => rfl
  | @char plain c s ho hc _ _ ih =>
    have hopen : c ≠ '\x7b' := by rintro rfl; cases ho
    have hclose : c ≠ '\x7d' := by rintro rfl; cases hc
    rw [List.count_cons_of_ne hopen, List.count_cons_of_ne hclose, ih]
  | @group plain o c s t pair _ _ ihs iht =>
    simp only [List.mem_cons, Prod.mk.injEq, List.not_mem_nil, or_false] at pair
    rcases pair with ⟨rfl, rfl⟩ | ⟨rfl, rfl⟩ | ⟨rfl, rfl⟩
    all_goals simp [List.count_append, ihs, iht]
    all_goals omega

/-- More braces open than close only inside of a bracket. -/
theorem Nested.lt_depthOf_of_count {plain : Char → Prop} (h : Nested plain (a ++ b))
    (hc : a.count '\x7d' < a.count '\x7b') : 0 < depthOf 0 a := by
  rcases h.inside_or_rest 0 with hlt | ⟨-, hb⟩
  · exact hlt
  · have hab := h.count_eq
    rw [List.count_append, List.count_append, hb.count_eq] at hab
    omega

/-- A newline inside of a bracket, or among characters of which it is one, keeps brackets nested. -/
theorem Nested.insert_newline {plain : Char → Prop} (h : Nested plain (a ++ b))
    (ha : plain '\n' ∨ 0 < depthOf 0 a) : Nested plain (a ++ '\n' :: b) := by
  generalize hs : a ++ b = s at h
  induction h generalizing a b with
  | nil =>
    obtain ⟨rfl, rfl⟩ := List.append_eq_nil_iff.mp hs
    exact .char rfl rfl (ha.resolve_right (Nat.lt_irrefl 0)) .nil
  | @char plain c s ho hc hp hs' ih =>
    cases a with
    | nil =>
      have hplain := ha.resolve_right (Nat.lt_irrefl 0)
      rw [List.nil_append] at hs
      exact .char rfl rfl hplain (hs ▸ .char ho hc hp hs')
    | cons x a =>
      obtain ⟨rfl, hab⟩ := List.cons.inj hs
      rw [depthOf, List.foldl_cons, depthAfter_plain ho hc] at ha
      exact .char ho hc hp (ih ha hab)
  | @group plain o c s t pair inside rest ihs iht =>
    obtain ⟨ho, hc, hco⟩ := isOpening_of_pair pair
    cases a with
    | nil =>
      have hplain := ha.resolve_right (Nat.lt_irrefl 0)
      rw [List.nil_append] at hs
      exact .char rfl rfl hplain (hs ▸ .group pair inside rest)
    | cons x a =>
      obtain ⟨rfl, hab⟩ := List.cons.inj hs
      rcases List.append_eq_append_iff.mp hab with ⟨m, rfl, rfl⟩ | ⟨m, rfl, hm⟩
      · -- between the brackets any character is plain
        have hgroup := Nested.group pair (ihs (.inl trivial) rfl) rest
        simpa using hgroup
      · cases m with
        | nil =>
          rw [List.nil_append] at hm
          subst hm
          have hinside : Nested (fun _ => True) (s ++ ['\n']) :=
            inside.append (.char rfl rfl trivial .nil)
          simpa using Nested.group pair hinside rest
        | cons x m =>
          obtain ⟨rfl, rfl⟩ := List.cons.inj hm
          rw [depthOf, List.foldl_cons, depthAfter_opening ho, List.foldl_append, List.foldl_cons,
            show List.foldl depthAfter (0 + 1) s = 0 + 1 from inside.depthOf_eq 1,
            depthAfter_closing hco hc] at ha
          simpa using Nested.group pair inside (iht ha rfl)

private theorem Nested.and_ne {plain : Char → Prop} {c : Char} (h : Nested plain s) (hc : c ∉ s) :
    Nested (fun x => plain x ∧ x ≠ c) s := by
  induction h with
  | nil => exact .nil
  | char ho hcl hp _ ih =>
    obtain ⟨hne, hc⟩ := not_or.mp fun hm => hc (List.mem_cons.mpr hm)
    exact .char ho hcl ⟨hp, Ne.symm hne⟩ (ih hc)
  | group pair inside _ _ ih =>
    exact .group pair inside (ih fun hm => hc (by simp [hm]))

/-! Any number of line breaks -/

/-- What a text keeps of the entry that it is a layout of. -/
structure IsLayoutOf (e t : List Char) : Prop where
  nested : Nested (fun c => c ≠ ';' ∧ c ≠ '\n') t
  uncommented : Uncommented t
  opens : Declaration.opens t = Declaration.opens e
  field : (readPiece? t).map Declaration.field = (readPiece? e).map Declaration.field

private theorem IsOneLine.isLayoutOf (h : IsOneLine e) : IsLayoutOf e e :=
  ⟨h.nested.and_ne h.line, withoutComments_eq_self_iff.mp h.uncommented, rfl, rfl⟩

private theorem IsLayoutOf.step (h : IsLayoutOf e s) (hst : BreaksLine s t) : IsLayoutOf e t := by
  obtain ⟨a, b, rfl, rfl, hcount, hplace⟩ := hst
  have hb := broken_of_mayBreak hplace
  have hdepth := h.nested.lt_depthOf_of_count hcount
  refine ⟨h.nested.insert_newline (.inr hdepth), hb.uncommented h.uncommented, ?_, ?_⟩
  · rw [← hb.opens_eq, h.opens]
  · rw [← hb.field_eq h.nested.bracesClose, h.field]

private theorem isLayoutOf_of_breaks (he : IsOneLine e) (h : Relation.ReflTransGen BreaksLine e t) :
    IsLayoutOf e t := by
  induction h with
  | refl => exact he.isLayoutOf
  | tail _ hst ih => exact ih.step hst

private theorem parse_textOfEntry_eq (hn : IsIdentifier name) (s : List Char) :
    parse (textOfEntry name s) = ⟨String.ofList name, fieldsOf ((entries (insideBrace
      ('\n' :: withoutComments (s ++ [';', '\n', '\x7d'])))).filterMap readPiece?)⟩ := by
  rw [parse, textOfEntry, String.toList_ofList, ofText_headerText hn]

/-- The only entry gives the only field. -/
theorem parse_textOfEntry (hn : IsIdentifier name) (hs : IsEntry s) (hu : Uncommented s) :
    parse (textOfEntry name s) =
      ⟨String.ofList name, Fields.ofList ((readPiece? s).map Declaration.field).toList⟩ := by
  have hcomments : withoutComments (s ++ [';', '\n', '\x7d']) = s ++ [';', '\n', '\x7d'] :=
    withoutComments_eq_self_iff.mpr (hu.append_cons (by decide) (by decide))
  have hbody : insideBrace ('\n' :: (s ++ [';', '\n', '\x7d'])) = '\n' :: (s ++ [';', '\n']) := by
    have hplain : Nested (fun _ => True) s := hs.nested.mono fun _ _ => trivial
    have hnested : Nested (fun _ => True) ('\n' :: (s ++ [';', '\n'])) :=
      .char rfl rfl trivial (hplain.append (.char rfl rfl trivial (.char rfl rfl trivial .nil)))
    have hclose : insideBrace (('\n' :: (s ++ [';', '\n'])) ++ ['\x7d']) = _ :=
      insideBrace_of_nested hnested
    simpa using hclose
  have hentries : (entries ('\n' :: (s ++ [';', '\n']))).filterMap readPiece? =
      [s].filterMap readPiece? := by
    have hone : ∀ t ∈ [s], IsEntry t := by simpa using hs
    rw [← filterMap_entries hone, List.flatMap_singleton]
  rw [parse_textOfEntry_eq hn, hcomments, hbody, hentries]
  cases hr : readPiece? s <;> simp [hr, fieldsOf, Declaration.field]

/-- However the lines of its literals break, an entry that starts like a field, with a type that is
not blank, gives an interface the same one field. -/
theorem parse_of_breaks (hn : IsIdentifier name) (he : IsOneLine e)
    (hd : Declaration.read? e = some d) (htype : trim d.type ≠ [])
    (hbreaks : Relation.ReflTransGen BreaksLine e t) (hopens : Declaration.opens e = true ∨ t = e) :
    parse (textOfEntry name t) = ⟨String.ofList name, [d.field]⟩ := by
  have h := isLayoutOf_of_breaks he hbreaks
  have hfield : (readPiece? t).map Declaration.field = some d.field := by
    rw [h.field, Declaration.field_readPiece? he.nested hd htype]
  have ho : '\n' ∈ t → Declaration.opens t = true := by
    intro hm
    rcases hopens with ho | rfl
    · rw [h.opens, ho]
    · exact absurd hm he.line
  rw [parse_textOfEntry hn ⟨h.nested, ho⟩ h.uncommented, hfield]
  rfl

def ownerStart : List Char := "owner?: ".toList

def ownerName : List Char := "name: string,".toList

def ownerTags : List Char :=
  " tags: ".toList ++ '\x7b' :: ("id: number".toList ++ '\x7d' :: ['[', ']'])

def ownerLine : List Char :=
  ownerStart ++ '\x7b' :: ((ownerName ++ ownerTags) ++ '\x7d' :: ['[', ']'])

/-- The same on four lines. -/
def ownerLines : List Char :=
  (ownerStart ++ ['\x7b']) ++
    '\n' :: (ownerName ++ '\n' :: (ownerTags ++ '\n' :: ['\x7d', '[', ']']))

/-- What both say about the field. -/
def ownerType : FieldType :=
  { kind := .object, isArray := true, isOptional := true, members := some (
    [("name", { kind := .string, format := some .name }),
     ("tags",
      { kind := .object, isArray := true, members := some ([("id", { kind := .number })]) })]) }

private theorem isOneLine_ownerLine : IsOneLine ownerLine := by
  refine ⟨by decide, ?_, withoutComments_eq_self (by decide)⟩
  have hlist {plain : Char → Prop} : Nested plain ['[', ']'] := .group (by decide) .nil .nil
  have hid : Nested (fun _ => True) "id: number".toList := nested_of_forall (by decide)
  have htags : Nested (fun _ => True) ownerTags :=
    (nested_of_forall (by decide)).append (.group (by decide) hid hlist)
  have hname : Nested (fun _ => True) ownerName := nested_of_forall (by decide)
  have hstart : Nested (· ≠ ';') ownerStart := nested_of_forall (by decide)
  exact hstart.append (.group (by decide) (hname.append htags) hlist)

private theorem ownerLine_breaks : Relation.ReflTransGen BreaksLine ownerLine ownerLines := by
  let close := ['\x7d', '[', ']']
  have hopen : BreaksLine ownerLine
      ((ownerStart ++ ['\x7b']) ++ '\n' :: (ownerName ++ (ownerTags ++ close))) := by
    refine ⟨ownerStart ++ ['\x7b'], ownerName ++ (ownerTags ++ close), ?_, rfl, by decide,
      .inl ⟨'\x7b', by decide, List.getLast?_concat⟩⟩
    rw [ownerLine, List.append_assoc, List.append_assoc, List.singleton_append]
  have hcomma : BreaksLine ((ownerStart ++ ['\x7b']) ++ '\n' :: (ownerName ++ (ownerTags ++ close)))
      ((ownerStart ++ ['\x7b']) ++ '\n' :: (ownerName ++ '\n' :: (ownerTags ++ close))) := by
    refine ⟨(ownerStart ++ ['\x7b']) ++ '\n' :: ownerName, ownerTags ++ close, ?_, ?_, by decide,
      .inl ⟨',', by decide, by decide⟩⟩
    all_goals rw [List.append_assoc (ownerStart ++ ['\x7b']), List.cons_append]
  have hclose :
      BreaksLine ((ownerStart ++ ['\x7b']) ++ '\n' :: (ownerName ++ '\n' :: (ownerTags ++ close)))
        ownerLines := by
    refine ⟨(ownerStart ++ ['\x7b']) ++ '\n' :: (ownerName ++ '\n' :: ownerTags), close, ?_, ?_,
      by decide, .inr rfl⟩
    · rw [List.append_assoc (ownerStart ++ ['\x7b']) (_ :: _), List.cons_append,
        List.append_assoc ownerName, List.cons_append]
    · rw [ownerLines, List.append_assoc (ownerStart ++ ['\x7b']), List.cons_append,
        List.append_assoc ownerName, List.cons_append]
  exact .head hopen (.head hcomma (.single hclose))

theorem parse_ownerLines :
    IsOneLine ownerLine ∧ Relation.ReflTransGen BreaksLine ownerLine ownerLines ∧
      parse (textOfEntry ['P', 'e', 't'] ownerLines) = ⟨"Pet", [("owner", ownerType)]⟩ := by
  let owner : Declaration :=
    ⟨"owner".toList, true, "\x7bname: string, tags: \x7bid: number\x7d[]\x7d[]".toList⟩
  let name : Declaration := ⟨"name".toList, false, "string".toList⟩
  let tags : Declaration := ⟨"tags".toList, false, "\x7bid: number\x7d[]".toList⟩
  let id : Declaration := ⟨"id".toList, false, "number".toList⟩
  have hread : Declaration.read? ownerLine = some owner := by decide +kernel
  have hid : id.fieldType = { kind := .number } := by
    rw [Declaration.fieldType_eq]
    rfl
  have hname : name.fieldType = { kind := .string, format := some .name } := by
    rw [Declaration.fieldType_eq]
    rfl
  have htags : tags.fieldType =
      { kind := .object, isArray := true, members := some ([("id", { kind := .number })]) } := by
    have hmembers : membersOf tags.baseType = [id] := by decide +kernel
    rw [Declaration.fieldType_eq, hmembers, fieldsOf, List.map_singleton, hid]
    rfl
  have howner : owner.field = ("owner", ownerType) := by
    have hmembers : membersOf owner.baseType = [name, tags] := by decide +kernel
    rw [Declaration.field, Declaration.fieldType_eq, hmembers, fieldsOf, List.map_cons,
      List.map_singleton, hname, htags]
    rfl
  refine ⟨isOneLine_ownerLine, ownerLine_breaks, ?_⟩
  rw [← howner]
  exact parse_of_breaks (by decide) isOneLine_ownerLine hread (by decide) ownerLine_breaks
    (.inl (by decide))

/-- With a word before its name a field loses the members that are on lines of their own, and a
field with a blank type is none. -/
theorem layout_matters :
    (IsOneLine "readonly a: \x7bb: string\x7d".toList ∧
      Declaration.read? "readonly a: \x7bb: string\x7d".toList =
        some ⟨['a'], false, "\x7bb: string\x7d".toList⟩ ∧
      Relation.ReflTransGen BreaksLine "readonly a: \x7bb: string\x7d".toList
        "readonly a: \x7b\nb: string\x7d".toList ∧
      (parse (textOfEntry ['N'] "readonly a: \x7bb: string\x7d".toList)).fields.map (·.1) = ["a"] ∧
      (parse (textOfEntry ['N'] "readonly a: \x7b\nb: string\x7d".toList)).fields.map (·.1) =
        ["a", "b"]) ∧
    (IsOneLine "a: ".toList ∧ Declaration.read? "a: ".toList = some ⟨['a'], false, []⟩ ∧
      (parse (textOfEntry ['N'] "a: ".toList)).fields = []) := by
  have hliteral : IsOneLine "readonly a: \x7bb: string\x7d".toList := by
    refine ⟨by decide, ?_, withoutComments_eq_self (by decide)⟩
    have hb : Nested (fun _ => True) "b: string".toList := nested_of_forall (by decide)
    have hname : Nested (· ≠ ';') "readonly a: ".toList := nested_of_forall (by decide)
    exact hname.append (.group (by decide) hb .nil)
  have hbreak : BreaksLine "readonly a: \x7bb: string\x7d".toList
      "readonly a: \x7b\nb: string\x7d".toList :=
    ⟨"readonly a: \x7b".toList, "b: string\x7d".toList, rfl, rfl, by decide,
      .inl ⟨'\x7b', by decide, rfl⟩⟩
  have hblank : IsOneLine "a: ".toList :=
    ⟨by decide, nested_of_forall (by decide), withoutComments_eq_self (by decide)⟩
  have hwhole : (entries (insideBrace ('\n' :: withoutComments
      ("readonly a: \x7bb: string\x7d".toList ++ [';', '\n', '\x7d'])))).filterMap readPiece? =
      [⟨['a'], false, "\x7bb: string\x7d".toList⟩] := by decide +kernel
  have hsplit : (entries (insideBrace ('\n' :: withoutComments
      ("readonly a: \x7b\nb: string\x7d".toList ++ [';', '\n', '\x7d'])))).filterMap readPiece? =
      [⟨['a'], false, ['\x7b']⟩, ⟨['b'], false, "string\x7d".toList⟩] := by decide +kernel
  have hnone : (entries (insideBrace ('\n' :: withoutComments
      ("a: ".toList ++ [';', '\n', '\x7d'])))).filterMap readPiece? = [] := by decide +kernel
  refine ⟨⟨hliteral, by decide +kernel, .single hbreak, ?_, ?_⟩, hblank, by decide +kernel, ?_⟩
  · rw [parse_textOfEntry_eq (by decide), hwhole]
    rfl
  · rw [parse_textOfEntry_eq (by decide), hsplit]
    rfl
  · rw [parse_textOfEntry_eq (by decide), hnone]
    rfl

end MockServer.Interface
