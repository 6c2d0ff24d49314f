import MockServer.Proofs.Interface.Insertion
import MockServer.Proofs.Interface.Reading

/-!
The declaration that is read on either side of one more blank: the name and the keywords are the
same, and the two types differ by the blank alone.
-/
namespace MockServer.Interface

open MockServer.Text

namespace Declaration

/-- The same field, with types that are the same but for the blank. -/
structure SameBut (σ : Seam) (d e : Declaration) : Prop where
  name : d.name = e.name
  isOptional : d.isOptional = e.isOptional
  type : Inserted σ d.type e.type

end Declaration

namespace Inserted

open Declaration

variable {σ : Seam} {s t : List Char}

/-! Declarations -/

private theorem withoutSemicolon (h : Inserted σ s t) (ht : Text.trimEnd t = t) :
    Inserted σ (withoutSemicolon s) (withoutSemicolon t) := by
  induction h with
  | same => exact .same _
  | @before c edge s =>
    rw [withoutSemicolon_cons (List.cons_ne_nil _ _)]
    by_cases hs : s = []
    · have hc : c ≠ ';' := by
        rintro rfl
        exact Seam.not_mem_before (by decide) (by decide) edge
      rw [hs, Declaration.withoutSemicolon, if_neg (by simpa using hc)]
      exact .before edge []
    · rw [withoutSemicolon_cons hs]
      exact .before edge _
  | @after c edge s =>
    by_cases hs : s = []
    · have hend : Text.trimEnd [σ.blank] = [σ.blank] :=
        trimEnd_eq_of_suffix ht (hs ▸ List.suffix_cons c _)
      rw [trimEnd_cons_of_blank σ.isBlank_blank rfl] at hend
      cases hend
    · rw [withoutSemicolon_cons hs, withoutSemicolon_cons (List.cons_ne_nil _ _),
        withoutSemicolon_cons hs]
      exact .after edge _
  | @cons c s t rest ih =>
    by_cases hs : s = []
    · rw [hs, rest.eq_nil_iff.mp hs]
      exact .same _
    · rw [withoutSemicolon_cons hs, withoutSemicolon_cons (mt rest.eq_nil_iff.mpr hs)]
      exact (ih (trimEnd_eq_of_suffix ht (List.suffix_cons c t))).cons c

private theorem optionalMark (h : Inserted σ s t) : (optionalMark s).1 = (optionalMark t).1 ∧
    Inserted σ (optionalMark s).2 (optionalMark t).2 := by
  rcases h.cons_cases (c := '?') (Seam.not_mem_edges (by decide)) with
    ⟨x, y, rfl, rfl, hxy⟩ | ⟨hs, ht⟩
  · exact ⟨rfl, hxy⟩
  · rw [optionalMark_of_ne hs, optionalMark_of_ne ht]
    exact ⟨rfl, h⟩

private theorem afterName? (h : Inserted σ s t) :
    Option.Rel (fun a b => a.1 = b.1 ∧ Inserted σ a.2 b.2) (afterName? s) (afterName? t) := by
  obtain ⟨hmark, hrest⟩ := h.optionalMark
  rcases hrest.trimStart.cons_cases (c := ':') (Seam.not_mem_edges (by decide)) with
    ⟨x, y, hx, hy, hxy⟩ | ⟨hx, hy⟩
  · rw [afterName?_of_colon hx, afterName?_of_colon hy]
    exact .some ⟨hmark, hxy⟩
  · rw [afterName?_of_ne hx, afterName?_of_ne hy]
    exact .none

/-- Every edge is outside of words, and so is the blank. -/
theorem dropWhile_isWord (h : Inserted σ s t) :
    Inserted σ (s.dropWhile isWord) (t.dropWhile isWord) :=
  h.dropWhile fun _ hc hw => absurd hw (Bool.eq_false_iff.mp (Seam.not_isWord_of_mem hc))

private theorem takeWhile_isWord (h : Inserted σ s t) : s.takeWhile isWord = t.takeWhile isWord :=
  h.takeWhile_eq fun _ => Seam.not_isWord_of_mem

private theorem atStart? (h : Inserted σ s t) (ht : Text.trimEnd t = t) :
    Option.Rel (SameBut σ) (atStart? s) (atStart? t) := by
  have hafter := h.dropWhile_isWord.afterName?
  generalize ha : Declaration.afterName? (s.dropWhile isWord) = a at hafter
  generalize hb : Declaration.afterName? (t.dropWhile isWord) = b at hafter
  cases hafter with
  | none =>
    rw [atStart?_of_nothing (by simp [ha]), atStart?_of_nothing (by simp [hb])]
    exact .none
  | @some a b hab =>
    obtain ⟨o, x⟩ := a
    obtain ⟨o', y⟩ := b
    obtain ⟨ho, hxy⟩ : o = o' ∧ Inserted σ x y := hab
    subst ho
    have hy : y <:+ t := (suffix_of_afterName? hb).trans (List.dropWhile_suffix _)
    rcases x with - | ⟨c, x⟩
    · rw [hxy.eq_nil_iff.mp rfl] at hb
      rw [atStart?_of_nothing (by simp [ha]), atStart?_of_nothing (by simp [hb])]
      exact .none
    · obtain ⟨e, y, rfl⟩ := List.exists_cons_of_ne_nil (mt hxy.eq_nil_iff.mpr (by simp))
      rw [atStart?_of_afterName? ha, atStart?_of_afterName? hb]
      have htype := trimEnd_eq_of_suffix ht ((List.dropWhile_suffix isBlank).trans hy)
      exact .some ⟨h.takeWhile_isWord, rfl, hxy.trimStart.withoutSemicolon htype⟩

/-- The same field is read on either side of the blank. -/
theorem read? (h : Inserted σ s t) (ht : Text.trimEnd t = t) :
    Option.Rel (SameBut σ) (read? s) (read? t) := by
  induction hlen : s.length using Nat.strongRecOn generalizing s t with | _ len ih
  have hblank : (!isWord σ.blank) = true := by rw [not_isWord_of_isBlank σ.isBlank_blank]; rfl
  have hd := h.dropWhile (p := (!isWord ·)) fun _ _ _ => hblank
  cases hs : s.dropWhile (!isWord ·) with
  | nil =>
    rw [read?_of_nil hs, read?_of_nil (hd.eq_nil_iff.mp hs)]
    exact .none
  | cons c rest =>
    have hw : isWord c = true := by simpa using of_dropWhile_cons hs
    have hc : c ∉ σ.edges := fun he => absurd hw (by rw [Seam.not_isWord_of_mem he]; nofun)
    rw [hs] at hd
    rcases hd.cons_cases hc with ⟨x, y, hx, hy, hxy⟩ | ⟨hno, -⟩
    · obtain rfl := (List.cons.inj hx).2
      have hsuffix : c :: y <:+ t := hy ▸ List.dropWhile_suffix _
      have hstart := (hxy.cons c).atStart? (trimEnd_eq_of_suffix ht hsuffix)
      rw [read?_of_cons hs, read?_of_cons hy]
      generalize Declaration.atStart? (c :: rest) = a at hstart ⊢
      generalize Declaration.atStart? (c :: y) = b at hstart ⊢
      cases hstart with
      | some hde => exact .some hde
      | none =>
        have hlt : (rest.dropWhile isWord).length < len := by
          have h1 := (List.dropWhile_sublist isWord (l := rest)).length_le
          have h2 := (List.dropWhile_sublist (!isWord ·) (l := s)).length_le
          rw [hs, List.length_cons] at h2
          omega
        have hlater : y.dropWhile isWord <:+ t :=
          (List.dropWhile_suffix _).trans ((List.suffix_cons c y).trans hsuffix)
        exact ih _ hlt hxy.dropWhile_isWord (trimEnd_eq_of_suffix ht hlater) rfl
    · exact absurd rfl (hno rest)

theorem opens_eq (h : Inserted σ s t) : opens s = opens t := by
  have hafter := h.trimStart.dropWhile_isWord.afterName?
  rw [opens, opens, h.trimStart.takeWhile_isWord]
  congr 1
  generalize Declaration.afterName? _ = a at hafter ⊢
  generalize Declaration.afterName? _ = b at hafter ⊢
  cases hafter <;> rfl

/-! Keywords -/

private theorem arrayElement? (h : Inserted σ s t) :
    Option.Rel (Inserted σ) (arrayElement? s) (arrayElement? t) := by
  by_cases hs : ['[', ']'] <:+ s
  · obtain ⟨e, rfl⟩ := hs
    rcases h.of_append with ⟨e', he, rfl⟩ | ⟨y, hy, rfl⟩
    · rw [arrayElement?_append, arrayElement?_append]
      exact .some he.trimEnd
    · obtain rfl := hy.eq_of_solid (.inl (by decide))
      rw [arrayElement?_append]
      exact rel_refl _
  · rw [arrayElement?_of_not_suffix hs,
      arrayElement?_of_not_suffix (mt (h.suffix_iff (by decide)).mpr hs)]
    exact .none

private theorem contains_eq {z : List Char} (h : Inserted σ s t) (hz : Solid z) :
    contains z s = contains z t := by
  rw [Bool.eq_iff_iff, contains_iff, contains_iff]
  exact h.infix_iff hz

private theorem head?_eq_brace_iff (h : Inserted σ s t) :
    s.head? = some '\x7b' ↔ t.head? = some '\x7b' := by
  cases h with
  | same => rfl
  | @before c edge s =>
    have hc : c ≠ '\x7b' := by
      rintro rfl
      exact Seam.not_mem_before (by decide) (by decide) edge
    simp [hc, σ.blank_ne (c := '\x7b') (by decide)]
  | after => rfl
  | cons => rfl

private theorem classify_eq (h : Inserted σ s t) : Kind.classify s = Kind.classify t := by
  have hbrace : s.contains '\x7b' = t.contains '\x7b' := by
    rw [Bool.eq_iff_iff, List.contains_iff_mem, List.contains_iff_mem]
    exact h.mem_iff (σ.blank_ne (by decide)).symm
  rw [Kind.classify, Kind.classify, hbrace, h.contains_eq (z := "string".toList) (by decide),
    h.contains_eq (z := "number".toList) (by decide),
    h.contains_eq (z := "boolean".toList) (by decide),
    h.contains_eq (z := "Date".toList) (by decide)]
  simp only [h.head?_eq_brace_iff]

private theorem foldText (h : Inserted σ s t) : Inserted σ (foldText s) (foldText t) := by
  have hcons (c : Char) (u : List Char) : Text.foldText (c :: u) = foldCase c ++ Text.foldText u :=
    List.flatMap_cons
  have hkept {c : Char} (hc : c ∈ σ.edges) (u : List Char) :
      Text.foldText (c :: u) = c :: Text.foldText u := by
    rw [hcons, foldCase_of_isLoose (Seam.isLoose_of_mem hc), List.singleton_append]
  induction h with
  | same => exact .same _
  | before edge =>
    rw [hkept σ.blank_mem_edges, hkept (Seam.mem_edges_of_before edge)]
    exact .before edge _
  | after edge =>
    have hc := Seam.mem_edges_of_after edge
    rw [hkept hc, hkept hc, hkept σ.blank_mem_edges]
    exact .after edge _
  | cons c _ ih =>
    rw [hcons, hcons]
    exact ih.append_left (foldCase c)

private theorem infer?_eq (h : Inserted σ s t) (name : List Char) :
    StringFormat.infer? name s = StringFormat.infer? name t := by
  have htext := ((h.cons ' ').append_left name).foldText
  have hsolid : ∀ rule ∈ StringFormat.rules, ∀ keyword ∈ rule.2, Solid keyword := by decide
  apply StringFormat.rank_injective
  refine (StringFormat.rank_find? _).trans (Eq.trans ?_ (StringFormat.rank_find? _).symm)
  apply findIdx_congr
  intro rule hrule
  rw [Bool.eq_iff_iff, List.any_eq_true, List.any_eq_true]
  refine exists_congr fun keyword => and_congr_right fun hk => ?_
  rw [htext.contains_eq (hsolid rule hrule keyword hk)]

end Inserted

/-! Types -/

theorem map_field_eq {σ : Seam} {a b : Option Declaration}
    (h : Option.Rel (Declaration.SameBut σ) a b)
    (heq : ∀ d e, a = some d → Declaration.SameBut σ d e → d.fieldType = e.fieldType) :
    a.map Declaration.field = b.map Declaration.field := by
  cases h with
  | none => rfl
  | @some d e hde =>
    rw [Option.map_some, Option.map_some, Declaration.field, Declaration.field, hde.name,
      heq d e rfl hde]

namespace Declaration.SameBut

variable {σ : Seam} {d e : Declaration}

private theorem cleanType (h : SameBut σ d e) : Inserted σ d.cleanType e.cleanType :=
  (h.type.trim.withoutSemicolon (trimEnd_trimEnd _)).trimEnd

theorem baseType (h : SameBut σ d e) : Inserted σ d.baseType e.baseType := by
  have hclean := h.cleanType
  have helement := hclean.arrayElement?
  unfold Declaration.baseType
  generalize Interface.arrayElement? d.cleanType = a at helement ⊢
  generalize Interface.arrayElement? e.cleanType = b at helement ⊢
  cases helement with
  | none => exact hclean
  | some hab => exact hab

/-- The two fields have the same shape if their literals have the same members. -/
theorem fieldType_eq_of_members (h : SameBut σ d e)
    (hmembers : fieldsOf (membersOf d.baseType) = fieldsOf (membersOf e.baseType)) :
    d.fieldType = e.fieldType := by
  have hisArray : (Interface.arrayElement? d.cleanType).isSome =
      (Interface.arrayElement? e.cleanType).isSome := by
    have helement := h.cleanType.arrayElement?
    generalize Interface.arrayElement? d.cleanType = a at helement ⊢
    generalize Interface.arrayElement? e.cleanType = b at helement ⊢
    cases helement <;> rfl
  rw [Declaration.fieldType_eq, Declaration.fieldType_eq e, hisArray, h.baseType.classify_eq,
    hmembers, h.name, h.isOptional, h.cleanType.infer?_eq]

end Declaration.SameBut
end MockServer.Interface
