import MockServer.Interface.Format

/-!
Which rule decides a string format. Keywords are found in the name or in the type, never across the
two, and the earlier of their rules counts.
-/
namespace MockServer.Text

theorem infix_append_cons_iff {α : Type} {l s t : List α} {c : α} (hc : c ∉ l) :
    l <:+: s ++ c :: t ↔ l <:+: s ∨ l <:+: t := by
  constructor
  · rintro ⟨u, v, h⟩
    rcases List.append_eq_append_iff.mp h with ⟨m, hs, -⟩ | ⟨m, hul, hv⟩
    · exact .inl ⟨u, m, hs.symm⟩
    cases m with
    | nil => exact .inl ⟨u, [], by simpa using hul⟩
    | cons d m =>
      obtain ⟨rfl, rfl⟩ := List.cons.inj hv
      rcases List.append_eq_append_iff.mp hul with ⟨k, -, hl⟩ | ⟨k, -, hm⟩
      · exact absurd (hl ▸ by simp) hc
      cases k with
      | nil =>
        rw [List.nil_append] at hm
        exact absurd (hm ▸ List.mem_cons_self) hc
      | cons d k =>
        obtain ⟨rfl, rfl⟩ := List.cons.inj hm
        exact .inr ⟨k, v, rfl⟩
  · rintro (h | h)
    · exact h.trans (List.prefix_append s _).isInfix
    · exact h.trans ((List.suffix_cons c t).trans (List.suffix_append s _)).isInfix

private theorem contains_append_cons {needle : List Char} {c : Char} (hc : c ∉ needle)
    (s t : List Char) :
    contains needle (s ++ c :: t) = (contains needle s || contains needle t) := by
  rw [Bool.eq_iff_iff, Bool.or_eq_true]
  simp only [contains_iff]
  exact infix_append_cons_iff hc

theorem findIdx_congr {α : Type} {p q : α → Bool} {l : List α} (h : ∀ a ∈ l, p a = q a) :
    l.findIdx p = l.findIdx q := by
  induction l with
  | nil => rfl
  | cons a l ih =>
    rw [List.findIdx_cons, List.findIdx_cons, h a List.mem_cons_self,
      ih fun b hb => h b (List.mem_cons_of_mem a hb)]

private theorem findIdx_or {α : Type} (p q : α → Bool) (l : List α) :
    l.findIdx (fun a => p a || q a) = min (l.findIdx p) (l.findIdx q) := by
  induction l with
  | nil => rfl
  | cons a l ih =>
    simp only [List.findIdx_cons, ih]
    cases p a <;> cases q a <;> simp

/-- Where the values of a key are distinct, an item is found by its key at its own place. -/
theorem findIdx_key {α β : Type} [DecidableEq β] (key : α → β) {l : List α} {q : α → Bool} {a : α}
    (hl : (l.map key).Nodup) (h : l.find? q = some a) :
    l.findIdx (fun b => key b = key a) = l.findIdx q := by
  induction l with
  | nil => cases h
  | cons b l ih =>
    rw [List.map_cons, List.nodup_cons] at hl
    rw [List.find?_cons] at h
    rw [List.findIdx_cons, List.findIdx_cons]
    cases hq : q b with
    | true =>
      rw [hq] at h
      cases h
      simp
    | false =>
      rw [hq] at h
      have hne : key b ≠ key a := fun he =>
        hl.1 (he ▸ List.mem_map_of_mem (List.mem_of_find?_eq_some h))
      simp [hne, ih hl.2 h]

end MockServer.Text

namespace MockServer.StringFormat

open MockServer.Text

/-- The place of the rule that gives a format. No format comes after all rules. -/
def rank : Option StringFormat → Nat
  | none => rules.length
  | some f => rules.findIdx (·.1 = f)

/-- Whether a text holds a keyword of a rule. -/
def holds (text : List Char) (rule : StringFormat × List (List Char)) : Bool :=
  rule.2.any (contains · text)

theorem rank_injective {f g : Option StringFormat} (h : rank f = rank g) : f = g := by
  revert h
  rcases f with - | f <;> rcases g with - | g
  · exact fun _ => rfl
  · cases g <;> decide
  · cases f <;> decide
  · cases f <;> cases g <;> decide

theorem rank_find? (q : StringFormat × List (List Char) → Bool) :
    rank ((rules.find? q).map (·.1)) = rules.findIdx q := by
  cases h : rules.find? q with
  | none =>
    rw [Option.map_none, rank, List.findIdx_eq_length.mpr]
    exact fun r hr => by simpa using List.find?_eq_none.mp h r hr
  | some r => exact findIdx_key Prod.fst (by decide) h

theorem blank_not_mem_keyword : ∀ rule ∈ rules, ∀ keyword ∈ rule.2, ' ' ∉ keyword := by
  decide

private theorem holds_append_blank {rule : StringFormat × List (List Char)} (hr : rule ∈ rules)
    (s t : List Char) : holds (s ++ ' ' :: t) rule = (holds s rule || holds t rule) := by
  rw [Bool.eq_iff_iff, Bool.or_eq_true]
  simp only [holds, List.any_eq_true]
  constructor
  · rintro ⟨k, hk, h⟩
    rw [contains_append_cons (blank_not_mem_keyword rule hr k hk), Bool.or_eq_true] at h
    exact h.imp (⟨k, hk, ·⟩) (⟨k, hk, ·⟩)
  · rintro (⟨k, hk, h⟩ | ⟨k, hk, h⟩)
    all_goals
      refine ⟨k, hk, ?_⟩
      rw [contains_append_cons (blank_not_mem_keyword rule hr k hk), h]
      simp

theorem rank_infer?_eq (field type : List Char) :
    rank (infer? field type) =
      min (rules.findIdx (holds (foldText field))) (rules.findIdx (holds (foldText type))) := by
  have hfold : foldText (field ++ ' ' :: type) = foldText field ++ ' ' :: foldText type :=
    foldText_append field (' ' :: type)
  rw [infer?, ← findIdx_or, hfold]
  exact (rank_find? _).trans (findIdx_congr fun rule hr => holds_append_blank hr _ _)

/-- The rule of a field is the earlier one of its name's and its type's. -/
theorem rank_infer? (field type : List Char) :
    rank (infer? field type) = min (rank (infer? field [])) (rank (infer? [] type)) := by
  have hnil : rules.findIdx (holds (foldText [])) = rules.length := by decide
  rw [rank_infer?_eq, rank_infer?_eq field [], rank_infer?_eq [] type, hnil]
  have hf : rules.findIdx (holds (foldText field)) ≤ rules.length := List.findIdx_le_length
  have ht : rules.findIdx (holds (foldText type)) ≤ rules.length := List.findIdx_le_length
  rw [Nat.min_eq_left hf, Nat.min_eq_right ht]

end MockServer.StringFormat
