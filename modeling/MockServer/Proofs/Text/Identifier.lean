import Mathlib.Data.List.DropRight
import MockServer.Text.Blank
import MockServer.Text.Word

/-!
Word characters and blanks, and what trimming does to texts that neither start nor end with a blank.
-/
namespace MockServer.Text

/-- The characters with the property White_Space, one by one. -/
def blanks : List Char :=
  [9, 10, 11, 12, 13, 0x20, 0x85, 0xA0, 0x1680, 0x2000, 0x2001, 0x2002, 0x2003, 0x2004, 0x2005,
    0x2006, 0x2007, 0x2008, 0x2009, 0x200A, 0x2028, 0x2029, 0x202F, 0x205F, 0x3000].map Char.ofNat

theorem mem_blanks {c : Char} (h : isBlank c = true) : c ∈ blanks := by
  rw [blanks, List.mem_map]
  refine ⟨c.toNat, ?_, c.ofNat_toNat⟩
  simp only [isBlank, Bool.or_eq_true, Bool.and_eq_true, decide_eq_true_eq, beq_iff_eq] at h
  simp only [List.mem_cons, List.not_mem_nil, or_false]
  omega

theorem not_isWord_of_isBlank {c : Char} (h : isBlank c = true) : isWord c = false := by
  have hw : blanks.all (!isWord ·) = true := by decide +kernel
  simpa using List.all_eq_true.mp hw c (mem_blanks h)

/-- No character is both a part of words and a blank. -/
theorem isBlank_of_isWord {c : Char} (h : isWord c = true) : isBlank c = false := by
  cases hb : isBlank c with
  | false => rfl
  | true =>
    rw [not_isWord_of_isBlank hb] at h
    cases h

/-- A character outside a class does not occur in a text of the class. -/
theorem not_mem_of_forall {p : Char → Bool} {s : List Char} {c : Char}
    (h : ∀ x ∈ s, p x = true) (hc : p c = false) : c ∉ s := by
  intro hm
  rw [h c hm] at hc
  cases hc

theorem bne_of_not_mem {c : Char} {s : List Char} (h : c ∉ s) : ∀ x ∈ s, (x != c) = true := by
  intro x hx
  rw [bne_iff_ne]
  rintro rfl
  exact h hx

theorem dropWhile_bne_of_not_mem {c : Char} {s : List Char} (h : c ∉ s) :
    s.dropWhile (· != c) = [] := List.dropWhile_eq_nil_iff.mpr (bne_of_not_mem h)

theorem dropWhile_append_cons {p : Char → Bool} {c : Char} (hc : p c = false) (s t : List Char) :
    (s ++ c :: t).dropWhile p = s.dropWhile p ++ c :: t := by
  induction s with
  | nil => simp [hc]
  | cons e s ih => cases he : p e <;> simp [he, ih]

theorem of_dropWhile_cons {p : Char → Bool} {c : Char} {s t : List Char}
    (h : s.dropWhile p = c :: t) : p c = false := by
  have hhead := List.head?_dropWhile_not p s
  simpa [h] using hhead

theorem takeWhile_append_cons {p : Char → Bool} {c : Char} (hc : p c = false) (s t : List Char) :
    (s ++ c :: t).takeWhile p = s.takeWhile p := by
  induction s with
  | nil => simp [hc]
  | cons e s ih => cases he : p e <;> simp [he, ih]

/-- Nonempty and of word characters only. -/
def IsIdentifier (s : List Char) : Prop := s ≠ [] ∧ ∀ c ∈ s, isWord c = true

instance (s : List Char) : Decidable (IsIdentifier s) :=
  decidable_of_iff (s.isEmpty = false ∧ s.all isWord = true) (by
    rw [IsIdentifier, List.isEmpty_eq_false_iff, List.all_eq_true])

/-- Starts and ends with characters that are no blanks. -/
def IsTight (s : List Char) : Prop :=
  (∃ c rest, s = c :: rest ∧ isBlank c = false) ∧ ∃ init c, s = init ++ [c] ∧ isBlank c = false

variable {s t u : List Char}

theorem IsIdentifier.isTight (h : IsIdentifier s) : IsTight s := by
  obtain ⟨hne, hw⟩ := h
  constructor
  · obtain ⟨c, rest, rfl⟩ := List.exists_cons_of_ne_nil hne
    exact ⟨c, rest, rfl, isBlank_of_isWord (hw c List.mem_cons_self)⟩
  · refine ⟨s.dropLast, s.getLast hne, (List.dropLast_concat_getLast hne).symm, ?_⟩
    exact isBlank_of_isWord (hw _ (List.getLast_mem hne))

namespace IsTight

theorem append (hs : IsTight s) (u : List Char) (ht : IsTight t) : IsTight (s ++ (u ++ t)) := by
  obtain ⟨⟨c, rest, rfl, hc⟩, -⟩ := hs
  obtain ⟨-, init, d, rfl, hd⟩ := ht
  exact ⟨⟨c, rest ++ (u ++ (init ++ [d])), rfl, hc⟩, (c :: rest) ++ (u ++ init), d, by simp, hd⟩

theorem trimStart_eq (h : IsTight s) : trimStart s = s := by
  obtain ⟨⟨c, rest, rfl, hc⟩, -⟩ := h
  exact trimStart_cons_of_not_blank hc rest

theorem trimEnd_eq (h : IsTight s) : trimEnd s = s := by
  obtain ⟨-, init, c, rfl, hc⟩ := h
  simp [trimEnd, hc]

theorem trim_eq (h : IsTight s) : trim s = s := by
  rw [trim, h.trimStart_eq, h.trimEnd_eq]

end IsTight

theorem trim_cons_of_blank {c : Char} (h : isBlank c = true) (s : List Char) :
    trim (c :: s) = trim s := by
  rw [trim, trimStart_cons_of_blank h, trim]

theorem trimEnd_cons_of_ne_nil (h : trimEnd s ≠ []) (c : Char) :
    trimEnd (c :: s) = c :: trimEnd s := by
  have hs : s.reverse.dropWhile isBlank ≠ [] := fun he => h (by rw [trimEnd, he]; rfl)
  simp [trimEnd, List.dropWhile_append, hs]

private theorem trimEnd_cons_of_not_blank {c : Char} (h : isBlank c = false) (s : List Char) :
    trimEnd (c :: s) = c :: trimEnd s := by
  by_cases hs : s.reverse.dropWhile isBlank = []
  · simp [trimEnd, List.dropWhile_append, hs, h]
  · exact trimEnd_cons_of_ne_nil (by simpa [trimEnd] using hs) c

theorem trimEnd_cons_of_blank {c : Char} (h : isBlank c = true) (hs : trimEnd s = []) :
    trimEnd (c :: s) = [] := by
  have hs : s.reverse.dropWhile isBlank = [] := by simpa [trimEnd] using hs
  simp [trimEnd, List.dropWhile_append, hs, h]

theorem trimEnd_cons_of_cons_ne_nil {c : Char} (h : trimEnd (c :: s) ≠ []) :
    trimEnd (c :: s) = c :: trimEnd s := by
  cases hc : isBlank c with
  | true => exact trimEnd_cons_of_ne_nil (mt (trimEnd_cons_of_blank hc) h) c
  | false => exact trimEnd_cons_of_not_blank hc s

theorem trimEnd_cons_congr (h : trimEnd s = trimEnd t) (c : Char) :
    trimEnd (c :: s) = trimEnd (c :: t) := by
  have hs : s.reverse.dropWhile isBlank = t.reverse.dropWhile isBlank := by simpa [trimEnd] using h
  simp [trimEnd, List.dropWhile_append, hs]

/-- A text that ends with no blank has no end that does. -/
theorem trimEnd_eq_of_suffix (h : trimEnd t = t) (hs : s <:+ t) : trimEnd s = s := by
  obtain ⟨u, rfl⟩ := hs
  induction u with
  | nil => exact h
  | cons c u ih =>
    refine ih ?_
    by_cases hu : trimEnd (u ++ s) = []
    · cases hc : isBlank c with
      | true =>
        rw [List.cons_append, trimEnd_cons_of_blank hc hu] at h
        cases h
      | false =>
        rw [List.cons_append, trimEnd_cons_of_not_blank hc] at h
        exact (List.cons.inj h).2
    · rw [List.cons_append, trimEnd_cons_of_ne_nil hu] at h
      exact (List.cons.inj h).2

/-- What is cut off at the end are blanks. -/
theorem trimEnd_append (s : List Char) :
    ∃ u, trimEnd s ++ u = s ∧ ∀ c ∈ u, isBlank c = true := by
  refine ⟨(s.reverse.takeWhile isBlank).reverse, ?_, ?_⟩
  · rw [trimEnd, ← List.reverse_append, List.takeWhile_append_dropWhile, List.reverse_reverse]
  · intro c hc
    exact List.mem_takeWhile_imp (List.mem_reverse.mp hc)

theorem trimStart_of_blanks (hu : ∀ c ∈ u, isBlank c = true) : trimStart u = [] :=
  List.dropWhile_eq_nil_iff.mpr hu

theorem trimStart_append_of_ne_nil (hs : trimStart s ≠ []) (u : List Char) :
    trimStart (s ++ u) = trimStart s ++ u := by
  unfold trimStart at hs ⊢
  rw [List.dropWhile_append, if_neg (mt List.isEmpty_iff.mp hs)]

theorem trimStart_append_of_nil (hs : trimStart s = []) (u : List Char) :
    trimStart (s ++ u) = trimStart u := by
  unfold trimStart at hs ⊢
  rw [List.dropWhile_append, if_pos (List.isEmpty_iff.mpr hs)]

theorem trimEnd_append_blanks (hu : ∀ c ∈ u, isBlank c = true) (s : List Char) :
    trimEnd (s ++ u) = trimEnd s := by
  have hr : ∀ c ∈ u.reverse, isBlank c = true := fun c hc => hu c (List.mem_reverse.mp hc)
  rw [trimEnd, List.reverse_append, List.dropWhile_append_of_pos hr, trimEnd]

theorem trim_append_blanks (hu : ∀ c ∈ u, isBlank c = true) (s : List Char) :
    trim (s ++ u) = trim s := by
  by_cases hs : trimStart s = []
  · rw [trim, trimStart_append_of_nil hs, trimStart_of_blanks hu, trim, hs]
  · rw [trim, trimStart_append_of_ne_nil hs, trimEnd_append_blanks hu, trim]

theorem trim_blanks_append (hu : ∀ c ∈ u, isBlank c = true) (s : List Char) :
    trim (u ++ s) = trim s := by
  rw [trim, trimStart_append_of_nil (trimStart_of_blanks hu), trim]

theorem trimEnd_trimEnd (s : List Char) : trimEnd (trimEnd s) = trimEnd s :=
  List.rdropWhile_idempotent isBlank s

private theorem trimEnd_eq_nil_iff : trimEnd s = [] ↔ ∀ c ∈ s, isBlank c = true := by
  constructor
  · intro h
    obtain ⟨u, hu, hblank⟩ := trimEnd_append s
    rw [h, List.nil_append] at hu
    exact hu ▸ hblank
  · intro h
    have hr : s.reverse.dropWhile isBlank = [] :=
      List.dropWhile_eq_nil_iff.mpr fun c hc => h c (List.mem_reverse.mp hc)
    rw [trimEnd, hr, List.reverse_nil]

/-- Only of blank texts trimming leaves nothing. -/
theorem trim_eq_nil_iff : trim s = [] ↔ ∀ c ∈ s, isBlank c = true := by
  rw [trim, trimEnd_eq_nil_iff]
  constructor
  · intro h c hc
    rw [← List.takeWhile_append_dropWhile (p := isBlank) (l := s)] at hc
    rcases List.mem_append.mp hc with hc | hc
    · exact List.mem_takeWhile_imp hc
    · exact h c hc
  · intro h c hc
    exact h c ((List.dropWhile_suffix isBlank).subset hc)

end MockServer.Text
