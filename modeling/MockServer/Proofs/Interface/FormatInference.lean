import Mathlib.Data.List.Infix
import MockServer.Proofs.Interface.FormatRank
import MockServer.Proofs.Text.LowerCase

/-!
What the format of a field depends on. It is the earlier one of what the name and the type give
apart, more text can only bring an earlier rule, and the case of ASCII letters does not count. All
this holds of a search in the full lower case of name, blank and type as one text, where what stands
behind the name can decide how its last letter is written.
-/
namespace MockServer.StringFormat

open MockServer.Text

/-- The format whose rule comes first. No format comes after all rules. -/
def earlier (f g : Option StringFormat) : Option StringFormat :=
  if rank f ≤ rank g then f else g

/-- The search of `infer?` in the full lower case of the name, a blank and the type. -/
def inferIn (T : CaseTables) (field type : List Char) : Option StringFormat :=
  (rules.find? (holds (T.lowerText (field ++ ' ' :: type)))).map (·.1)

variable {rule : StringFormat × List (List Char)} {keyword s t : List Char}
variable {field field' type type' : List Char}

private theorem keyword_ascii (hr : rule ∈ rules) (hk : keyword ∈ rule.2) :
    ∀ c ∈ keyword, c.toNat < 128 := by
  have hall : ∀ rule ∈ rules, ∀ keyword ∈ rule.2, keyword.all (·.toNat < 128) = true := by decide
  intro c hc
  exact of_decide_eq_true (List.all_eq_true.mp (hall rule hr keyword hk) c hc)

private theorem rank_le (f : Option StringFormat) : rank f ≤ rank none := by
  cases f with
  | none => exact Nat.le_refl _
  | some f => exact List.findIdx_le_length

private theorem rank_earlier (f g : Option StringFormat) :
    rank (earlier f g) = min (rank f) (rank g) := by
  rw [earlier, Nat.min_def]
  split <;> rfl

/-- Full lower-casing gives a rule the keywords that folding gives it. -/
theorem holds_lowerText (T : CaseTables) (hr : rule ∈ rules) (s : List Char) :
    holds (T.lowerText s) rule = holds (foldText s) rule := by
  have hkeyword : ∀ k ∈ rule.2, contains k (T.lowerText s) = contains k (foldText s) :=
    fun k hk => T.contains_lowerText (keyword_ascii hr hk) s
  rw [Bool.eq_iff_iff, holds, holds, List.any_eq_true, List.any_eq_true]
  exact exists_congr fun k => and_congr_right fun hk => by rw [hkeyword k hk]

/-- The search in the full lower case gives the format that the search in folded text gives. -/
theorem inferIn_eq (T : CaseTables) (field type : List Char) :
    inferIn T field type = infer? field type := by
  apply rank_injective
  calc rank (inferIn T field type)
      = rules.findIdx (holds (T.lowerText (field ++ ' ' :: type))) := rank_find? _
    _ = rules.findIdx (holds (foldText (field ++ ' ' :: type))) :=
        findIdx_congr fun rule hr => holds_lowerText T hr _
    _ = rank (infer? field type) := (rank_find? _).symm

private theorem infer?_eq_earlier (field type : List Char) :
    infer? field type = earlier (infer? field []) (infer? [] type) := by
  apply rank_injective
  rw [rank_infer?, rank_earlier]

private theorem infer?_eq_none_iff :
    infer? field type = none ↔ infer? field [] = none ∧ infer? [] type = none := by
  -- the rank of no format is the greatest, and a minimum is that only where both are
  have hnone (f : Option StringFormat) : f = none ↔ rank none ≤ rank f :=
    ⟨fun h => h ▸ Nat.le_refl _, fun h => rank_injective (Nat.le_antisymm (rank_le f) h)⟩
  rw [hnone, hnone, hnone, rank_infer?]
  exact Nat.le_min

/-- A keyword has no blank, so it lies on one side of the blank between name and type. -/
theorem keyword_infix_iff (T : CaseTables) (hr : rule ∈ rules) (hk : keyword ∈ rule.2) :
    keyword <:+: T.lowerText (field ++ ' ' :: type) ↔
      keyword <:+: T.lowerText field ∨ keyword <:+: T.lowerText type := by
  have hfold (s : List Char) : keyword <:+: T.lowerText s ↔ keyword <:+: foldText s :=
    (T.alike_lowerFrom [] s).infix_iff (keyword_ascii hr hk)
  have hjoint : foldText (field ++ ' ' :: type) = foldText field ++ ' ' :: foldText type :=
    foldText_append field (' ' :: type)
  rw [hfold, hfold, hfold, hjoint]
  exact infix_append_cons_iff (blank_not_mem_keyword rule hr keyword hk)

/-- A text has every keyword that one of its parts has. -/
theorem holds_of_infix (h : s <:+: t) (hs : holds (foldText s) rule = true) :
    holds (foldText t) rule = true := by
  rw [holds, List.any_eq_true] at hs ⊢
  obtain ⟨k, hk, hin⟩ := hs
  rw [contains_iff] at hin
  exact ⟨k, hk, contains_iff.mpr (hin.trans (h.flatMap foldCase))⟩

/-- A longer name or type has the rule of the shorter or an earlier one. -/
theorem rank_infer?_le (hf : field <:+: field') (ht : type <:+: type') :
    rank (infer? field' type') ≤ rank (infer? field type) := by
  have hfield : rules.findIdx (holds (foldText field')) ≤ rules.findIdx (holds (foldText field)) :=
    List.findIdx_le_findIdx fun _ _ => holds_of_infix hf
  have htype : rules.findIdx (holds (foldText type')) ≤ rules.findIdx (holds (foldText type)) :=
    List.findIdx_le_findIdx fun _ _ => holds_of_infix ht
  rw [rank_infer?_eq, rank_infer?_eq]
  omega

/-- The case of ASCII letters in the name or the type does not count. -/
theorem infer?_map_toLower (field type : List Char) :
    infer? (field.map Char.toLower) (type.map Char.toLower) = infer? field type := by
  apply rank_injective
  rw [rank_infer?_eq, rank_infer?_eq, foldText_map_toLower, foldText_map_toLower]

/-- Inference splits over name and type. Whatever the tables of the lower case, the format is the
earlier one of the name's and the type's, and no keyword reaches from one into the other. Text
before or after the name or the type brings an earlier rule or keeps the rule, and texts that differ
in the case of ASCII letters have the same format: `Char.toLower` changes no other characters. -/
theorem inference_splits (T : CaseTables) (field type : List Char) :
    inferIn T field type = infer? field type ∧
      infer? field type = earlier (infer? field []) (infer? [] type) ∧
      (infer? field type = none ↔ infer? field [] = none ∧ infer? [] type = none) ∧
      (∀ rule ∈ rules, ∀ keyword ∈ rule.2,
        (keyword <:+: T.lowerText (field ++ ' ' :: type) ↔
          keyword <:+: T.lowerText field ∨ keyword <:+: T.lowerText type)) ∧
      (∀ field' type', field <:+: field' → type <:+: type' →
        rank (infer? field' type') ≤ rank (infer? field type)) ∧
      ∀ field' type', field'.map Char.toLower = field.map Char.toLower →
        type'.map Char.toLower = type.map Char.toLower →
        infer? field' type' = infer? field type := by
  refine ⟨inferIn_eq T field type, infer?_eq_earlier field type, infer?_eq_none_iff,
    fun rule hr keyword hk => keyword_infix_iff T hr hk,
    fun field' type' hf ht => rank_infer?_le hf ht, ?_⟩
  intro field' type' hf ht
  rw [← infer?_map_toLower field' type', hf, ht, infer?_map_toLower]

/-- A name with a capital sigma at its end, where the lower case hangs on what follows. -/
theorem companySigma_splits :
    let field := "companyΣ".toList
    let type := "ID".toList
    let lower := CaseTables.greek.lowerText
    (.company, ["company".toList]) ∈ rules ∧
      "company".toList <:+: lower field ∧
      field <:+: "companyΣName".toList ∧ type <:+: "ID[]".toList ∧
      "COMPANYΣ".toList.map Char.toLower = field.map Char.toLower ∧
      "id".toList.map Char.toLower = type.map Char.toLower ∧
      lower (field ++ ' ' :: type) = "companyς id".toList ∧
      infer? field [] = some .company ∧ infer? [] type = some .uuid ∧
      inferIn CaseTables.greek field type = some .company ∧
      "company".toList <:+: lower (field ++ ' ' :: type) ∧
      rank (infer? "companyΣName".toList "ID[]".toList) ≤ rank (some .company) ∧
      infer? "COMPANYΣ".toList "id".toList = some .company := by
  intro field type lower
  have hrule : (.company, ["company".toList]) ∈ rules := by decide
  have hkeyword : "company".toList <:+: lower field := by decide
  have hfield : field <:+: "companyΣName".toList := by decide
  have htype : type <:+: "ID[]".toList := by decide
  have hfieldCase : "COMPANYΣ".toList.map Char.toLower = field.map Char.toLower := by decide
  have htypeCase : "id".toList.map Char.toLower = type.map Char.toLower := by decide
  have hvalue : infer? field type = some .company := by decide
  obtain ⟨hsame, -, -, hkeywords, hlonger, hcase⟩ := inference_splits CaseTables.greek field type
  exact ⟨hrule, hkeyword, hfield, htype, hfieldCase, htypeCase, by decide, by decide, by decide,
    hsame.trans hvalue, (hkeywords _ hrule _ (by decide)).mpr (.inl hkeyword),
    hvalue ▸ hlonger _ _ hfield htype, (hcase _ _ hfieldCase htypeCase).trans hvalue⟩

end MockServer.StringFormat
