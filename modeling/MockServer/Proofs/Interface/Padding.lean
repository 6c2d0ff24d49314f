import MockServer.Proofs.Interface.Reading

/-!
Blanks around an entry. They do not change its field, unless the type has nothing else.
-/
namespace MockServer.Text

variable {s u : List Char}

private theorem takeWhile_isWord_append (hu : ∀ c ∈ u, isBlank c = true) (s : List Char) :
    (s ++ u).takeWhile isWord = s.takeWhile isWord := by
  cases u with
  | nil => rw [List.append_nil]
  | cons c u => exact takeWhile_append_cons (not_isWord_of_isBlank (hu c List.mem_cons_self)) s u

private theorem dropWhile_isWord_append (hu : ∀ c ∈ u, isBlank c = true) (s : List Char) :
    (s ++ u).dropWhile isWord = s.dropWhile isWord ++ u := by
  cases u with
  | nil => rw [List.append_nil, List.append_nil]
  | cons c u => exact dropWhile_append_cons (not_isWord_of_isBlank (hu c List.mem_cons_self)) s u

end MockServer.Text

namespace MockServer.Interface

open MockServer.Text

namespace Declaration

variable {s u : List Char} {d : Declaration}

private theorem optionalMark_append (hu : ∀ c ∈ u, isBlank c = true) (s : List Char) :
    optionalMark (s ++ u) = ((optionalMark s).1, (optionalMark s).2 ++ u) := by
  cases s with
  | nil =>
    refine optionalMark_of_ne ?_
    rintro x rfl
    exact absurd (hu '?' List.mem_cons_self) (by decide)
  | cons c s =>
    by_cases hc : c = '?'
    · rw [hc]
      rfl
    · rw [optionalMark_of_ne (by simp [hc]), optionalMark_of_ne (by simp [hc])]

private theorem afterName?_append (hu : ∀ c ∈ u, isBlank c = true) (s : List Char) :
    afterName? (s ++ u) = (afterName? s).map fun a => (a.1, a.2 ++ u) := by
  have hmark := optionalMark_append hu s
  by_cases hs : trimStart (optionalMark s).2 = []
  · rw [afterName?_of_ne (s := s) (by simp [hs]), afterName?_of_ne, Option.map_none]
    rw [hmark, trimStart_append_of_nil hs, trimStart_of_blanks hu]
    nofun
  · have hstart : trimStart (optionalMark (s ++ u)).2 = trimStart (optionalMark s).2 ++ u := by
      rw [hmark, trimStart_append_of_ne_nil hs]
    obtain ⟨c, x, hc⟩ := List.exists_cons_of_ne_nil hs
    rw [hc] at hstart
    by_cases hcolon : c = ':'
    · subst hcolon
      rw [afterName?_of_colon hstart, afterName?_of_colon hc, hmark]
      rfl
    · rw [afterName?_of_ne (by simp [hstart, hcolon]), afterName?_of_ne (by simp [hc, hcolon])]
      rfl

/-- A declaration without the blanks after its type. -/
def trimmed (d : Declaration) : Declaration := { d with type := trimEnd d.type }

private theorem atStart?_append_of_none (hu : ∀ c ∈ u, isBlank c = true)
    (h : atStart? (s ++ u) = none) :
    atStart? s = none := by
  refine atStart?_of_nothing fun o c x hs => ?_
  have happend : afterName? ((s ++ u).dropWhile isWord) = some (o, c :: (x ++ u)) := by
    rw [dropWhile_isWord_append hu, afterName?_append hu, hs]
    rfl
  rw [atStart?_of_afterName? happend] at h
  cases h

theorem getLast?_of_suffix {t : List Char} (hs : s <:+ t) (hne : s ≠ []) :
    t.getLast? = s.getLast? := by
  obtain ⟨a, rfl⟩ := hs
  rw [List.getLast?_append_of_ne_nil a hne]

private theorem getLast?_append_blanks_ne (hu : ∀ c ∈ u, isBlank c = true)
    (hs : s.getLast? ≠ some ';') :
    (s ++ u).getLast? ≠ some ';' := by
  by_cases hne : u = []
  · rw [hne, List.append_nil]
    exact hs
  · rw [List.getLast?_append_of_ne_nil s hne]
    intro hlast
    exact absurd (hu ';' (List.mem_of_getLast? hlast)) (by decide)

private theorem atStart?_append_of_some (hu : ∀ c ∈ u, isBlank c = true) (hs : trimEnd s = s)
    (hlast : s.getLast? ≠ some ';') (h : atStart? (s ++ u) = some d) (hd : trim d.type ≠ []) :
    atStart? s = some d.trimmed := by
  have happend : afterName? ((s ++ u).dropWhile isWord) =
      (afterName? (s.dropWhile isWord)).map fun a => (a.1, a.2 ++ u) := by
    rw [dropWhile_isWord_append hu, afterName?_append hu]
  cases ha : afterName? (s.dropWhile isWord) with
  | none =>
    rw [atStart?_of_nothing (by simp [happend, ha])] at h
    cases h
  | some a =>
    obtain ⟨o, x⟩ := a
    rw [ha, Option.map_some] at happend
    by_cases hx : trimStart x = []
    · -- nothing but blanks follows the colon
      rcases hxu : x ++ u with - | ⟨c, y⟩
      · rw [atStart?_of_nothing (by simp [happend, hxu])] at h
        cases h
      · rw [hxu] at happend
        rw [atStart?_of_afterName? happend, ← hxu, trimStart_append_of_nil hx,
          trimStart_of_blanks hu] at h
        obtain rfl := Option.some.inj h
        exact absurd rfl hd
    · have hsuffix : trimStart x <:+ s := (List.dropWhile_suffix isBlank).trans
        ((suffix_of_afterName? ha).trans (List.dropWhile_suffix isWord))
      have hx' : (trimStart x).getLast? ≠ some ';' := getLast?_of_suffix hsuffix hx ▸ hlast
      have htype : trimEnd (trimStart x ++ u) = trimStart x := by
        rw [trimEnd_append_blanks hu, trimEnd_eq_of_suffix hs hsuffix]
      obtain ⟨c, y, rfl⟩ := List.exists_cons_of_ne_nil (l := x) (by rintro rfl; exact hx rfl)
      have happend : afterName? ((s ++ u).dropWhile isWord) = some (o, c :: (y ++ u)) := happend
      have hlater := withoutSemicolon_of_getLast? (getLast?_append_blanks_ne hu hx')
      rw [atStart?_of_afterName? happend, takeWhile_isWord_append hu, ← List.cons_append,
        trimStart_append_of_ne_nil hx, hlater] at h
      obtain rfl := Option.some.inj h
      rw [atStart?_of_afterName? ha, withoutSemicolon_of_getLast? hx', trimmed, htype]

/-- Blanks at the end of an entry only lengthen the type. -/
theorem read?_append (hu : ∀ c ∈ u, isBlank c = true) (hs : trimEnd s = s)
    (hlast : s.getLast? ≠ some ';') (h : read? (s ++ u) = some d) (hd : trim d.type ≠ []) :
    read? s = some d.trimmed := by
  induction hlen : s.length using Nat.strongRecOn generalizing s with | _ len ih
  cases hw : s.dropWhile (!isWord ·) with
  | nil =>
    have hnone : (s ++ u).dropWhile (!isWord ·) = [] := by
      rw [List.dropWhile_append, hw]
      exact List.dropWhile_eq_nil_iff.mpr fun c hc => by simp [not_isWord_of_isBlank (hu c hc)]
    rw [read?_of_nil hnone] at h
    cases h
  | cons c rest =>
    have hcons : (s ++ u).dropWhile (!isWord ·) = c :: (rest ++ u) := by
      rw [List.dropWhile_append, hw]
      rfl
    have hsuffix : c :: rest <:+ s := hw ▸ List.dropWhile_suffix (!isWord ·)
    have hlast' : (c :: rest).getLast? ≠ some ';' :=
      getLast?_of_suffix hsuffix (List.cons_ne_nil c rest) ▸ hlast
    have hend := trimEnd_eq_of_suffix hs hsuffix
    rw [read?_of_cons hcons, ← List.cons_append] at h
    rw [read?_of_cons hw]
    cases ha : atStart? (c :: rest ++ u) with
    | some e =>
      rw [ha] at h
      obtain rfl := Option.some.inj h
      rw [atStart?_append_of_some hu hend hlast' ha hd]
      rfl
    | none =>
      rw [ha, Option.none_or, dropWhile_isWord_append hu] at h
      rw [atStart?_append_of_none hu ha, Option.none_or]
      have hsuffix' : rest.dropWhile isWord <:+ s :=
        (List.dropWhile_suffix isWord).trans ((List.suffix_cons c rest).trans hsuffix)
      have hlater : (rest.dropWhile isWord).getLast? ≠ some ';' := by
        by_cases hne : rest.dropWhile isWord = []
        · rw [hne]
          nofun
        · exact getLast?_of_suffix hsuffix' hne ▸ hlast
      have hlt : (rest.dropWhile isWord).length < len := by
        have h1 := (List.dropWhile_sublist isWord (l := rest)).length_le
        have h2 := hsuffix.length_le
        rw [List.length_cons] at h2
        omega
      exact ih _ hlt (trimEnd_eq_of_suffix hs hsuffix') hlater h rfl

private theorem read?_trimStart (s : List Char) : read? (trimStart s) = read? s := by
  have hdrop : s.dropWhile (!isWord ·) = (trimStart s).dropWhile (!isWord ·) := by
    conv_lhs => rw [← List.takeWhile_append_dropWhile (p := isBlank) (l := s)]
    refine List.dropWhile_append_of_pos fun c hc => ?_
    rw [not_isWord_of_isBlank (List.mem_takeWhile_imp hc)]
    rfl
  cases hs : s.dropWhile (!isWord ·) with
  | nil => rw [read?_of_nil hs, read?_of_nil (hdrop ▸ hs)]
  | cons c rest => rw [read?_of_cons hs, read?_of_cons (hdrop ▸ hs)]

private theorem field_trimmed (d : Declaration) : d.trimmed.field = d.field := by
  have hclean : d.trimmed.cleanType = d.cleanType := by
    obtain ⟨u, htype, hu⟩ := trimEnd_append d.type
    rw [cleanType, cleanType, ← trim_append_blanks hu]
    exact congrArg (fun s => trimEnd (withoutSemicolon (trim s))) htype
  rw [field, field, fieldType_eq, fieldType_eq d, baseType, baseType, hclean]
  rfl

/-- An entry with a type that is not blank has the same field without the blanks around it. -/
theorem field_readPiece? (hs : Nested (· ≠ ';') s) (h : read? s = some d) (hd : trim d.type ≠ []) :
    (readPiece? s).map field = some d.field := by
  obtain ⟨u, htrim, hu⟩ := trimEnd_append (trimStart s)
  have hsplit : s.takeWhile isBlank ++ (trim s ++ u) = s := by
    rw [trim, htrim, trimStart, List.takeWhile_append_dropWhile]
  have hlast : (trim s).getLast? ≠ some ';' :=
    getLast?_ne_of_nested (hsplit.symm ▸ hs) hu fun hne => hne rfl
  rw [← read?_trimStart, ← htrim] at h
  have hread : read? (trim s) = some d.trimmed := read?_append hu (trimEnd_trimEnd _) hlast h hd
  rw [readPiece?, hread, Option.map_some, field_trimmed]

end Declaration
end MockServer.Interface
