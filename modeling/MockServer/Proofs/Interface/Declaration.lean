import MockServer.Interface.Parse
import MockServer.Proofs.Interface.Grouping
import MockServer.Proofs.Interface.Nesting
import MockServer.Proofs.Text.Identifier

/-!
The readers of declarations case by case, and the lines of an entry whose brackets are nested: they
are one group if its first line starts like a field.
-/
namespace MockServer.Interface

open MockServer.Text

namespace Declaration

variable {s : List Char}

theorem withoutSemicolon_cons (hs : s ≠ []) (c : Char) :
    withoutSemicolon (c :: s) = c :: withoutSemicolon s := by
  have hl : (c :: s).getLast? = s.getLast? := by
    cases s with
    | nil => exact absurd rfl hs
    | cons d s => rfl
  rw [withoutSemicolon, withoutSemicolon, hl, List.dropLast_cons_of_ne_nil hs]
  split <;> rfl

theorem optionalMark_of_ne (h : ∀ x, s ≠ '?' :: x) : optionalMark s = (false, s) := by
  unfold optionalMark
  split
  next x => exact absurd rfl (h x)
  next => rfl

theorem afterName?_of_colon {x : List Char} (h : trimStart (optionalMark s).2 = ':' :: x) :
    afterName? s = some ((optionalMark s).1, x) := by
  simp only [afterName?, h]

theorem afterName?_of_ne (h : ∀ x, trimStart (optionalMark s).2 ≠ ':' :: x) :
    afterName? s = none := by
  unfold afterName?
  split
  next x hx => exact absurd hx (h x)
  next => rfl

theorem exists_of_afterName? {o : Bool} {type : List Char} (h : afterName? s = some (o, type)) :
    ∃ mark before, (mark = [] ∨ mark = ['?']) ∧ (∀ c ∈ before, isBlank c = true) ∧
      s = mark ++ (before ++ ':' :: type) := by
  obtain ⟨mark, hmark, hs⟩ :
      ∃ mark, (mark = [] ∨ mark = ['?']) ∧ s = mark ++ (optionalMark s).2 := by
    unfold optionalMark
    split
    next x => exact ⟨['?'], .inr rfl, rfl⟩
    next => exact ⟨[], .inl rfl, rfl⟩
  refine ⟨mark, (optionalMark s).2.takeWhile isBlank, hmark,
    fun c hc => List.mem_takeWhile_imp hc, ?_⟩
  unfold afterName? at h
  split at h
  next x hx =>
    obtain ⟨-, rfl⟩ := Prod.mk.inj (Option.some.inj h)
    conv_lhs => rw [hs, ← List.takeWhile_append_dropWhile (p := isBlank) (l := (optionalMark s).2)]
    rw [← hx]
    rfl
  next => cases h

theorem colon_suffix_of_afterName? {o : Bool} {type : List Char}
    (h : afterName? s = some (o, type)) : ':' :: type <:+ s := by
  obtain ⟨mark, before, -, -, rfl⟩ := exists_of_afterName? h
  exact ⟨mark ++ before, List.append_assoc mark before _⟩

theorem suffix_of_afterName? {o : Bool} {type : List Char}
    (h : afterName? s = some (o, type)) : type <:+ s :=
  (List.suffix_cons ':' type).trans (colon_suffix_of_afterName? h)

theorem atStart?_of_afterName? {o : Bool} {c : Char} {type : List Char}
    (h : afterName? (s.dropWhile isWord) = some (o, c :: type)) :
    atStart? s = some ⟨s.takeWhile isWord, o, withoutSemicolon (trimStart (c :: type))⟩ := by
  rw [atStart?, h]

theorem atStart?_of_nothing
    (h : ∀ o c type, afterName? (s.dropWhile isWord) ≠ some (o, c :: type)) :
    atStart? s = none := by
  unfold atStart?
  split
  next hx => exact absurd hx (h _ _ _)
  next => rfl

theorem read?_of_nil (h : s.dropWhile (!isWord ·) = []) : read? s = none := by
  rw [read?]
  split
  next => rfl
  next hs =>
    rw [h] at hs
    cases hs

theorem read?_of_cons {c : Char} {rest : List Char} (h : s.dropWhile (!isWord ·) = c :: rest) :
    read? s = (atStart? (c :: rest)).or (read? (rest.dropWhile isWord)) := by
  rw [read?]
  split
  next hs =>
    rw [h] at hs
    cases hs
  next hs =>
    rw [h] at hs
    obtain ⟨rfl, rfl⟩ := List.cons.inj hs
    cases atStart? (c :: rest) <;> rfl

/-- What follows a bracket does not count for the start of a field. -/
theorem opens_append_cons {o : Char} (ho : isOpening o = true) (x y z : List Char) :
    opens (x ++ o :: y) = opens (x ++ o :: z) := by
  have hblank : isBlank o = false := eq_false_of_bracket (by decide) (.inl ho)
  have hword : isWord o = false := eq_false_of_bracket (by decide) (.inl ho)
  have hmark : o ≠ '?' := by rintro rfl; cases ho
  have hcolon : o ≠ ':' := by rintro rfl; cases ho
  have hstart (y : List Char) : trimStart (x ++ o :: y) = trimStart x ++ o :: y :=
    dropWhile_append_cons hblank x y
  rw [opens, opens, hstart, hstart]
  simp only [takeWhile_append_cons hword, dropWhile_append_cons hword]
  congr 1
  generalize (trimStart x).dropWhile isWord = w
  -- the bracket stays behind the question mark, and then behind the blanks before the colon
  obtain ⟨v, o', hv⟩ : ∃ v m, ∀ y, optionalMark (w ++ o :: y) = (m, v ++ o :: y) := by
    rcases w with - | ⟨c, w⟩
    · exact ⟨[], false, fun y => optionalMark_of_ne (by simp [hmark])⟩
    by_cases hc : c = '?'
    · exact ⟨w, true, fun y => by rw [hc]; rfl⟩
    · exact ⟨c :: w, false, fun y => optionalMark_of_ne (by simp [hc])⟩
  simp only [afterName?, hv, trimStart, dropWhile_append_cons hblank]
  rcases v.dropWhile isBlank with - | ⟨c, u⟩
  · simp [hcolon]
  · by_cases hc : c = ':' <;> simp [hc]

end Declaration

theorem arrayElement?_append (s : List Char) :
    arrayElement? (s ++ ['[', ']']) = some (trimEnd s) := by
  simp [arrayElement?]

theorem arrayElement?_of_not_suffix {s : List Char} (h : ¬ ['[', ']'] <:+ s) :
    arrayElement? s = none := by
  unfold arrayElement?
  split
  next e hs =>
    refine absurd ⟨e.reverse, ?_⟩ h
    rw [← List.reverse_reverse s, hs]
    simp
  next => rfl

/-- A newline before the last one stands in front of the semicolon. -/
theorem exists_of_newline {s a b : List Char} (hab : s ++ [';', '\n'] = a ++ '\n' :: b)
    (hb : b ≠ []) : ∃ m, s = a ++ '\n' :: m := by
  rcases List.append_eq_append_iff.mp hab with ⟨m, -, hm⟩ | ⟨m, ha, hm⟩
  · rcases m with - | ⟨c, m⟩
    · cases hm
    obtain ⟨-, hm⟩ := List.cons.inj hm
    rcases m with - | ⟨e, m⟩
    · exact absurd (List.cons.inj hm).2.symm hb
    · simp at hm
  · rcases m with - | ⟨c, m⟩
    · cases hm
    · exact ⟨m, (List.cons.inj hm).1 ▸ ha⟩

theorem exists_opening_of_lt_depthOf {s : List Char} {d : Nat} (h : d < depthOf d s) :
    ∃ o ∈ s, isOpening o = true := by
  by_contra hno
  have hle : ∀ (s : List Char) (d : Nat), (∀ o ∈ s, isOpening o ≠ true) → depthOf d s ≤ d := by
    intro s
    induction s with
    | nil => exact fun d _ => Nat.le_refl d
    | cons c s ih =>
      intro d hs
      have hc : depthAfter d c ≤ d := by
        rw [depthAfter, if_neg (hs c List.mem_cons_self)]
        split <;> omega
      exact Nat.le_trans (ih _ fun o ho => hs o (List.mem_cons_of_mem c ho)) hc
  exact absurd h (Nat.not_lt.mpr (hle s d fun o ho hopen => hno ⟨o, ho, hopen⟩))

variable {s : List Char}

/-- An entry with its semicolon and a newline is one group. -/
theorem isGroup_of_nested (hs : Nested (fun c => c ≠ ';' ∧ c ≠ '\n') s)
    (ho : '\n' ∈ s → Declaration.opens s = true) : IsGroup (s ++ [';', '\n']) := by
  have hinside {a m : List Char} (hm : s = a ++ '\n' :: m) : 0 < depthOf 0 a :=
    (hm ▸ hs).lt_depthOf rfl (by simp) 0
  refine ⟨by simp, ?_, ?_, ?_⟩
  · rw [depthOf_append, hs.depthOf_eq]
    rfl
  · intro a b hab hb
    obtain ⟨m, hm⟩ := exists_of_newline hab hb
    rw [depthOf_append]
    exact hinside hm
  · intro a b hab hb _
    obtain ⟨m, rfl⟩ := exists_of_newline hab hb
    obtain ⟨o, hoa, hopen⟩ := exists_opening_of_lt_depthOf (hinside rfl)
    obtain ⟨x, y, rfl⟩ := List.append_of_mem hoa
    have hs := ho (by simp)
    rw [List.append_assoc, List.cons_append] at hs ⊢
    rw [Declaration.opens_append_cons hopen x _ (y ++ '\n' :: m)]
    exact hs

/-- Its entries are the text and the rest of its line. -/
theorem cutAtSemicolons_of_nested (hs : Nested (· ≠ ';') s) :
    cutAtSemicolons (s ++ [';', '\n']) = [s, ['\n']] := by
  have hb : ∀ c, isOpening c = true ∨ isClosing c = true → (c == ';') = false :=
    fun c => eq_false_of_bracket (p := (· == ';')) (by decide)
  have hcut : cutFrom (· == ';') 0 (s ++ [';', '\n']) =
      (cutFrom (· == ';') 0 [';', '\n']).modifyHead (s ++ ·) :=
    hs.cutFrom_append hb (fun _ c hc => by simpa using hc) _
  refine hcut.trans ?_
  rw [cutFrom_separator (by decide), List.modifyHead_cons, List.append_nil]
  rfl

end MockServer.Interface
