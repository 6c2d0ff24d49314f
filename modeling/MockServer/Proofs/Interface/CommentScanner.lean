import MockServer.Interface.Comment
import MockServer.Proofs.Interface.FormatRank

/-!
Comments found in one pass from the left, and the same passes over marked characters, so that two
results can be compared by the places they keep and not only by their text.
-/
namespace MockServer.Interface

/-- The text outside comments for a scanner that starts outside. The comment that opens first wins,
a line comment ends before its newline, and a block comment that never closes is ordinary text. -/
def outsideComments : List Char → List Char
  | [] => []
  | '/' :: '/' :: rest => outsideComments (rest.dropWhile (· != '\n'))
  | '/' :: '*' :: rest =>
    match _h : afterBlock? rest with
    | some later => outsideComments later
    | none => '/' :: '*' :: outsideComments rest
  | c :: rest => c :: outsideComments rest
termination_by s => s.length
decreasing_by
  · have := (List.dropWhile_sublist (· != '\n') (l := rest)).length_le
    simp only [List.length_cons]; omega
  · have := afterBlock?_length _h
    simp only [List.length_cons]; omega
  · simp only [List.length_cons]; omega
  · simp

def opensLine (s : List Char) : Bool := ['/', '/'].isPrefixOf s

/-- What follows the block comment at the front, if there is a closed one. -/
def frontBlock? : List Char → Option (List Char)
  | '/' :: '*' :: rest => afterBlock? rest
  | _ => none

private theorem afterBlock?_suffix {s t : List Char} (h : afterBlock? s = some t) : t <:+ s := by
  fun_induction afterBlock? s with
  | case1 => cases h
  | case2 rest =>
    cases h
    exact (List.suffix_cons _ _).trans (List.suffix_cons _ _)
  | case3 c rest _ ih => exact (ih h).trans (List.suffix_cons _ _)

theorem frontBlock?_suffix {s t : List Char} (h : frontBlock? s = some t) : t <:+ s := by
  unfold frontBlock? at h
  split at h
  · exact (afterBlock?_suffix h).trans ((List.suffix_cons _ _).trans (List.suffix_cons _ _))
  · cases h

theorem frontBlock?_length {s t : List Char} (h : frontBlock? s = some t) :
    t.length < s.length := by
  unfold frontBlock? at h
  split at h
  · have := afterBlock?_length h
    simp only [List.length_cons]; omega
  · cases h

private theorem afterBlock?_tail {c : Char} {s : List Char} (h : afterBlock? (c :: s) = none) :
    afterBlock? s = none := by
  rw [afterBlock?.eq_def] at h
  split at h
  · rename_i he; cases he
  · cases h
  · rename_i he; cases he; exact h

theorem afterBlock?_cons {c : Char} {s : List Char} (h : ∀ rest, c :: s ≠ '*' :: '/' :: rest) :
    afterBlock? (c :: s) = afterBlock? s := by
  rw [afterBlock?.eq_def]
  split
  next he => cases he
  next rest he => exact absurd he (h rest)
  next he => rw [(List.cons.inj he).2]

theorem frontBlock?_of_ne {s : List Char} (h : ∀ rest, s ≠ '/' :: '*' :: rest) :
    frontBlock? s = none := by
  unfold frontBlock?
  split
  next rest => exact absurd rfl (h rest)
  next => rfl

private theorem withoutBlocks_cons_of_ne {c : Char} {s : List Char}
    (h : ∀ rest, c = '/' → s ≠ '*' :: rest) : withoutBlocks (c :: s) = c :: withoutBlocks s := by
  unfold withoutBlocks
  rw [withoutBlocksAfter.eq_3 [] c s h, withoutBlocksAfter_eq]
  rfl

/-- Text without an end of a block comment keeps all of its characters. -/
theorem withoutBlocks_of_none {s : List Char} (h : afterBlock? s = none) :
    withoutBlocks s = s := by
  induction s with
  | nil => simp [withoutBlocks, withoutBlocksAfter]
  | cons c s ih =>
    have ht := afterBlock?_tail h
    by_cases hs : ∃ rest, c = '/' ∧ s = '*' :: rest
    · obtain ⟨rest, rfl, rfl⟩ := hs
      exact withoutBlocksAfter_unclosed (afterBlock?_tail ht) []
    · rw [withoutBlocks_cons_of_ne (fun rest hc he => hs ⟨rest, hc, he⟩), ih ht]

theorem withoutBlocks_of_frontBlock {s later : List Char} (h : frontBlock? s = some later) :
    withoutBlocks s = withoutBlocks later := by
  unfold frontBlock? at h
  split at h
  · exact withoutBlocksAfter_closed h []
  · cases h

theorem withoutBlocks_cons {c : Char} {s : List Char} (h : frontBlock? (c :: s) = none) :
    withoutBlocks (c :: s) = c :: withoutBlocks s := by
  by_cases hs : ∃ rest, c = '/' ∧ s = '*' :: rest
  · obtain ⟨rest, rfl, rfl⟩ := hs
    rw [withoutBlocks_cons_of_ne (s := rest) (by simp), withoutBlocks_of_none h]
    exact withoutBlocksAfter_unclosed h []
  · exact withoutBlocks_cons_of_ne fun rest hc he => hs ⟨rest, hc, he⟩

theorem opensLine_cons_iff {c : Char} {s : List Char} :
    opensLine (c :: s) = true ↔ c = '/' ∧ ∃ rest, s = '/' :: rest := by
  rw [opensLine, List.isPrefixOf_iff_prefix, List.cons_prefix_cons]
  constructor
  · rintro ⟨rfl, rest, rfl⟩
    exact ⟨rfl, rest, rfl⟩
  · rintro ⟨rfl, rest, rfl⟩
    exact ⟨rfl, rest, rfl⟩

theorem withoutLines_of_opensLine {s : List Char} (h : opensLine s = true) :
    withoutLines s = withoutLines (s.dropWhile (· != '\n')) := by
  cases s with
  | nil => rfl
  | cons c s =>
    obtain ⟨rfl, rest, rfl⟩ := opensLine_cons_iff.mp h
    unfold withoutLines
    rw [withoutLinesAfter]
    rfl

theorem withoutLines_cons {c : Char} {s : List Char} (h : opensLine (c :: s) = false) :
    withoutLines (c :: s) = c :: withoutLines s := by
  have hne : ∀ rest, c = '/' → s ≠ '/' :: rest := by
    rintro rest rfl rfl
    cases h
  unfold withoutLines
  rw [withoutLinesAfter.eq_3 [] c s hne, withoutLinesAfter_eq]
  rfl

/-- A text without slashes keeps all of its characters, also in front of another. -/
theorem withoutComments_append {u : List Char} (hu : '/' ∉ u) (s : List Char) :
    withoutComments (u ++ s) = u ++ withoutComments s := by
  unfold withoutComments
  have hb : withoutBlocks (u ++ s) = u ++ withoutBlocks s := by
    induction u with
    | nil => rfl
    | cons c u ih =>
      obtain ⟨hc, hu⟩ := not_or.mp fun h => hu (List.mem_cons.mpr h)
      rw [List.cons_append, withoutBlocks_cons_of_ne (fun _ he => absurd he.symm hc), ih hu,
        List.cons_append]
  rw [hb]
  generalize withoutBlocks s = t
  clear hb
  induction u with
  | nil => rfl
  | cons c u ih =>
    obtain ⟨hc, hu⟩ := not_or.mp fun h => hu (List.mem_cons.mpr h)
    have hopen : opensLine (c :: (u ++ t)) = false :=
      Bool.eq_false_iff.mpr fun h => hc (opensLine_cons_iff.mp h).1.symm
    rw [List.cons_append, withoutLines_cons hopen, ih hu, List.cons_append]

theorem withoutComments_eq_self {s : List Char} (h : '/' ∉ s) : withoutComments s = s := by
  have hs := withoutComments_append h []
  rw [List.append_nil] at hs
  simpa [withoutComments, withoutBlocks, withoutBlocksAfter, withoutLines, withoutLinesAfter]
    using hs

private theorem outsideComments_of_opensLine {s : List Char} (h : opensLine s = true) :
    outsideComments s = outsideComments (s.dropWhile (· != '\n')) := by
  cases s with
  | nil => rfl
  | cons c s =>
    obtain ⟨rfl, rest, rfl⟩ := opensLine_cons_iff.mp h
    rw [outsideComments]
    rfl

private theorem outsideComments_of_frontBlock {s later : List Char}
    (h : frontBlock? s = some later) :
    outsideComments s = outsideComments later := by
  unfold frontBlock? at h
  split at h
  · rw [outsideComments]
    split <;> simp_all
  · cases h

private theorem outsideComments_cons_of_ne {c : Char} {s : List Char}
    (hl : opensLine (c :: s) = false) (h : ∀ rest, c = '/' → s ≠ '*' :: rest) :
    outsideComments (c :: s) = c :: outsideComments s := by
  rw [outsideComments.eq_4 c s ?_ h]
  rintro rest rfl rfl
  cases hl

private theorem outsideComments_cons {c : Char} {s : List Char} (hl : opensLine (c :: s) = false)
    (h : frontBlock? (c :: s) = none) : outsideComments (c :: s) = c :: outsideComments s := by
  by_cases hs : ∃ rest, c = '/' ∧ s = '*' :: rest
  · obtain ⟨rest, rfl, rfl⟩ := hs
    rw [outsideComments_cons_of_ne (s := rest) rfl (by simp), outsideComments]
    split <;> simp_all [frontBlock?]
  · exact outsideComments_cons_of_ne hl fun rest hc he => hs ⟨rest, hc, he⟩

/-! The passes over marked characters, where `ch` reads the character of a mark -/

namespace Marked

variable {α : Type} (ch : α → Char)

/-- The end of the marked text that stands for an end of its characters. -/
def endAs (s : List α) (later : List Char) : List α := s.drop (s.length - later.length)

def lineEnd (s : List α) : List α := s.dropWhile (ch · != '\n')

theorem endAs_suffix (s : List α) (later : List Char) : endAs s later <:+ s :=
  List.drop_suffix _ _

theorem lineEnd_suffix (s : List α) : lineEnd ch s <:+ s := List.dropWhile_suffix _

variable {ch}

theorem map_endAs {s : List α} {later : List Char} (h : later <:+ s.map ch) :
    (endAs s later).map ch = later := by
  obtain ⟨front, hf⟩ := h
  have hl : s.length = front.length + later.length := by
    rw [← List.length_map ch, ← hf, List.length_append]
  rw [endAs, List.map_drop, ← hf, hl, Nat.add_sub_cancel, List.drop_left]

theorem map_lineEnd (s : List α) :
    (lineEnd ch s).map ch = (s.map ch).dropWhile (· != '\n') := by
  rw [List.dropWhile_map]
  rfl

theorem length_endAs_lt {s : List α} {later : List Char}
    (h : frontBlock? (s.map ch) = some later) : (endAs s later).length < s.length := by
  have hlt := frontBlock?_length h
  rw [← map_endAs (frontBlock?_suffix h), List.length_map, List.length_map] at hlt
  exact hlt

variable (ch)

/-- The marks that the removal of block comments keeps. -/
def blocks : List α → List α
  | [] => []
  | a :: s =>
    match _h : frontBlock? ((a :: s).map ch) with
    | some later => blocks (endAs (a :: s) later)
    | none => a :: blocks s
termination_by s => s.length
decreasing_by
  · exact length_endAs_lt _h
  · simp

/-- The marks that the removal of line comments keeps. -/
def lines : List α → List α
  | [] => []
  | a :: s => if opensLine ((a :: s).map ch) then lines (lineEnd ch s) else a :: lines s
termination_by s => s.length
decreasing_by
  · have := (lineEnd_suffix ch s).length_le
    simp only [List.length_cons]; omega
  · simp

/-- The marks that the scanner finds outside comments. -/
def outside : List α → List α
  | [] => []
  | a :: s =>
    if opensLine ((a :: s).map ch) then outside (lineEnd ch s)
    else match _h : frontBlock? ((a :: s).map ch) with
      | some later => outside (endAs (a :: s) later)
      | none => a :: outside s
termination_by s => s.length
decreasing_by
  · have := (lineEnd_suffix ch s).length_le
    simp only [List.length_cons]; omega
  · exact length_endAs_lt _h
  · simp

variable {ch}

theorem blocks_of_frontBlock {s : List α} {later : List Char}
    (h : frontBlock? (s.map ch) = some later) : blocks ch s = blocks ch (endAs s later) := by
  cases s with
  | nil => cases h
  | cons a s =>
    rw [blocks]
    split <;> simp_all

theorem blocks_cons {a : α} {s : List α} (h : frontBlock? ((a :: s).map ch) = none) :
    blocks ch (a :: s) = a :: blocks ch s := by
  rw [blocks]
  split <;> simp_all

theorem outside_of_frontBlock {s : List α} {later : List Char}
    (hl : opensLine (s.map ch) = false) (h : frontBlock? (s.map ch) = some later) :
    outside ch s = outside ch (endAs s later) := by
  cases s with
  | nil => cases h
  | cons a s =>
    rw [outside, if_neg (Bool.eq_false_iff.mp hl)]
    split <;> simp_all

theorem outside_cons {a : α} {s : List α} (hl : opensLine ((a :: s).map ch) = false)
    (h : frontBlock? ((a :: s).map ch) = none) : outside ch (a :: s) = a :: outside ch s := by
  rw [outside, if_neg (Bool.eq_false_iff.mp hl)]
  split <;> simp_all

theorem opensLine_map_iff {a : α} {s : List α} :
    opensLine ((a :: s).map ch) = true ↔ ch a = '/' ∧ ∃ b r, s = b :: r ∧ ch b = '/' := by
  rw [List.map_cons, opensLine_cons_iff]
  cases s with
  | nil => simp
  | cons b r => simp

theorem lines_of_opensLine {s : List α} (h : opensLine (s.map ch) = true) :
    lines ch s = lines ch (lineEnd ch s) := by
  cases s with
  | nil => cases h
  | cons a s =>
    have ha := (opensLine_map_iff.mp h).1
    rw [lines, if_pos h, lineEnd, lineEnd, List.dropWhile_cons_of_pos (by rw [ha]; rfl)]

theorem lines_cons {a : α} {s : List α} (h : opensLine ((a :: s).map ch) = false) :
    lines ch (a :: s) = a :: lines ch s := by
  rw [lines, if_neg (Bool.eq_false_iff.mp h)]

theorem outside_of_opensLine {s : List α} (h : opensLine (s.map ch) = true) :
    outside ch s = outside ch (lineEnd ch s) := by
  cases s with
  | nil => cases h
  | cons a s =>
    have ha := (opensLine_map_iff.mp h).1
    rw [outside, if_pos h, lineEnd, lineEnd, List.dropWhile_cons_of_pos (by rw [ha]; rfl)]

theorem blocks_sublist (s : List α) : (blocks ch s).Sublist s := by
  fun_induction blocks ch s with
  | case1 => exact List.Sublist.refl _
  | case2 a s later _ ih => exact ih.trans (endAs_suffix _ _).sublist
  | case3 a s _ ih => exact ih.cons_cons a

theorem lines_sublist (s : List α) : (lines ch s).Sublist s := by
  fun_induction lines ch s with
  | case1 => exact List.Sublist.refl _
  | case2 a s _ ih => exact (ih.trans (lineEnd_suffix ch s).sublist).cons a
  | case3 a s _ ih => exact ih.cons_cons a

theorem outside_sublist (s : List α) : (outside ch s).Sublist s := by
  fun_induction outside ch s with
  | case1 => exact List.Sublist.refl _
  | case2 a s _ ih => exact (ih.trans (lineEnd_suffix ch s).sublist).cons a
  | case3 a s _ later _ ih => exact ih.trans (endAs_suffix _ _).sublist
  | case4 a s _ _ ih => exact ih.cons_cons a

theorem map_blocks (s : List α) : (blocks ch s).map ch = withoutBlocks (s.map ch) := by
  fun_induction blocks ch s with
  | case1 => simp [withoutBlocks, withoutBlocksAfter]
  | case2 a s later h ih =>
    rw [ih, map_endAs (frontBlock?_suffix h), withoutBlocks_of_frontBlock h]
  | case3 a s h ih => rw [List.map_cons, List.map_cons, ih, withoutBlocks_cons h]

theorem map_lines (s : List α) : (lines ch s).map ch = withoutLines (s.map ch) := by
  fun_induction lines ch s with
  | case1 => simp [withoutLines, withoutLinesAfter]
  | case2 a s h ih =>
    have ha := (opensLine_map_iff.mp h).1
    rw [ih, map_lineEnd, withoutLines_of_opensLine h, List.map_cons,
      List.dropWhile_cons_of_pos (by rw [ha]; rfl)]
  | case3 a s h ih =>
    rw [List.map_cons, ih, List.map_cons, withoutLines_cons (Bool.eq_false_iff.mpr h)]

theorem map_outside (s : List α) : (outside ch s).map ch = outsideComments (s.map ch) := by
  fun_induction outside ch s with
  | case1 => simp [outsideComments]
  | case2 a s h ih =>
    have ha := (opensLine_map_iff.mp h).1
    rw [ih, map_lineEnd, outsideComments_of_opensLine h, List.map_cons,
      List.dropWhile_cons_of_pos (by rw [ha]; rfl)]
  | case3 a s hl later h ih =>
    rw [ih, map_endAs (frontBlock?_suffix h), outsideComments_of_frontBlock h]
  | case4 a s hl h ih =>
    rw [List.map_cons, ih, List.map_cons, outsideComments_cons (Bool.eq_false_iff.mpr hl) h]

end Marked

/-! Texts without comments -/

/-- No comment opens anywhere in the text. -/
def Uncommented (s : List Char) : Prop :=
  ∀ u, u <:+ s → opensLine u = false ∧ frontBlock? u = none

theorem withoutBlocks_sublist (s : List Char) : (withoutBlocks s).Sublist s := by
  have h : (Marked.blocks id s).Sublist s := Marked.blocks_sublist s
  rwa [← List.map_id (Marked.blocks id s), Marked.map_blocks, List.map_id] at h

theorem withoutLines_sublist (s : List Char) : (withoutLines s).Sublist s := by
  have h : (Marked.lines id s).Sublist s := Marked.lines_sublist s
  rwa [← List.map_id (Marked.lines id s), Marked.map_lines, List.map_id] at h

private theorem frontBlock?_of_withoutBlocks_eq {c : Char} {s : List Char}
    (h : withoutBlocks (c :: s) = c :: s) :
    frontBlock? (c :: s) = none ∧ withoutBlocks s = s := by
  cases hb : frontBlock? (c :: s) with
  | none =>
    rw [withoutBlocks_cons hb] at h
    exact ⟨rfl, (List.cons.inj h).2⟩
  | some later =>
    rw [withoutBlocks_of_frontBlock hb] at h
    have hl := (withoutBlocks_sublist later).length_le
    rw [h] at hl
    exact absurd (frontBlock?_length hb) (Nat.not_lt.mpr hl)

private theorem opensLine_of_withoutLines_eq {c : Char} {s : List Char}
    (h : withoutLines (c :: s) = c :: s) : opensLine (c :: s) = false ∧ withoutLines s = s := by
  cases ho : opensLine (c :: s) with
  | false =>
    rw [withoutLines_cons ho] at h
    exact ⟨rfl, (List.cons.inj h).2⟩
  | true =>
    have hc := (opensLine_cons_iff.mp ho).1
    rw [withoutLines_of_opensLine ho, List.dropWhile_cons_of_pos (by rw [hc]; rfl)] at h
    have hl := (withoutLines_sublist (s.dropWhile (· != '\n'))).length_le
    have hd := (List.dropWhile_sublist (· != '\n') (l := s)).length_le
    rw [h, List.length_cons] at hl
    omega

/-- The parser removes nothing exactly from a text in which no comment opens. -/
theorem withoutComments_eq_self_iff {s : List Char} : withoutComments s = s ↔ Uncommented s := by
  constructor
  · intro h
    have hblocks : withoutBlocks s = s := by
      refine (withoutBlocks_sublist s).eq_of_length_le ?_
      have hl := (withoutLines_sublist (withoutBlocks s)).length_le
      rwa [show withoutLines (withoutBlocks s) = s from h] at hl
    have hlines : withoutLines s = s := by rwa [withoutComments, hblocks] at h
    clear h
    induction s with
    | nil =>
      intro u hu
      rw [List.suffix_nil.mp hu]
      exact ⟨rfl, rfl⟩
    | cons c s ih =>
      obtain ⟨hb, hblocks⟩ := frontBlock?_of_withoutBlocks_eq hblocks
      obtain ⟨hl, hlines⟩ := opensLine_of_withoutLines_eq hlines
      intro u hu
      rcases List.suffix_cons_iff.mp hu with rfl | hu
      · exact ⟨hl, hb⟩
      · exact ih hblocks hlines u hu
  · intro h
    have hblocks : withoutBlocks s = s := by
      induction s with
      | nil => simp [withoutBlocks, withoutBlocksAfter]
      | cons c s ih =>
        rw [withoutBlocks_cons (h _ (List.suffix_refl _)).2,
          ih fun u hu => h u (hu.trans (List.suffix_cons c s))]
    rw [withoutComments, hblocks]
    clear hblocks
    induction s with
    | nil => simp [withoutLines, withoutLinesAfter]
    | cons c s ih =>
      rw [withoutLines_cons (h _ (List.suffix_refl _)).1,
        ih fun u hu => h u (hu.trans (List.suffix_cons c s))]

private theorem afterBlock?_eq_none_iff {s : List Char} :
    afterBlock? s = none ↔ ¬ ['*', '/'] <:+: s := by
  fun_induction afterBlock? s with
  | case1 => simp
  | case2 rest => simpa using ⟨[], rest, rfl⟩
  | case3 c rest hne ih =>
    rw [ih, List.infix_cons_iff, not_or, and_iff_right]
    rintro ⟨later, hl⟩
    obtain ⟨rfl, rfl⟩ := List.cons.inj hl
    exact hne later rfl rfl

theorem frontBlock?_eq_none_iff {s : List Char} :
    frontBlock? s = none ↔ ∀ rest, s = '/' :: '*' :: rest → ¬ ['*', '/'] <:+: rest := by
  unfold frontBlock?
  split
  next rest =>
    rw [afterBlock?_eq_none_iff]
    constructor
    · rintro h _ ⟨⟩
      exact h
    · exact fun h => h rest rfl
  next hne => exact iff_of_true rfl fun rest he => absurd he (hne rest)

private theorem uncommented_cons_iff {c : Char} {s : List Char} :
    Uncommented (c :: s) ↔
      (opensLine (c :: s) = false ∧ frontBlock? (c :: s) = none) ∧ Uncommented s := by
  constructor
  · intro h
    exact ⟨h _ (List.suffix_refl _), fun u hu => h u (hu.trans (List.suffix_cons c s))⟩
  · rintro ⟨hc, hs⟩ u hu
    rcases List.suffix_cons_iff.mp hu with rfl | hu
    · exact hc
    · exact hs u hu

/-- A comment does not reach over a character that no comment mark holds. -/
theorem Uncommented.append_cons {s t : List Char} {c : Char} (h : Uncommented s)
    (hc : c ≠ '/' ∧ c ≠ '*') (ht : '/' ∉ t) : Uncommented (s ++ c :: t) := by
  have hend : ¬ ['*', '/'] <:+: t := fun hi => ht (hi.subset (by decide))
  have hmark : c ∉ ['*', '/'] := by simpa using hc.symm
  induction s with
  | nil =>
    refine uncommented_cons_iff.mpr ⟨⟨?_, ?_⟩, withoutComments_eq_self_iff.mp
      (withoutComments_eq_self ht)⟩
    · exact Bool.eq_false_iff.mpr fun ho => hc.1 (opensLine_cons_iff.mp ho).1
    · exact frontBlock?_eq_none_iff.mpr fun _ he => absurd (List.cons.inj he).1 hc.1
  | cons a s ih =>
    obtain ⟨⟨hl, hb⟩, hs⟩ := uncommented_cons_iff.mp h
    refine uncommented_cons_iff.mpr ⟨⟨?_, ?_⟩, ih hs⟩
    · rw [Bool.eq_false_iff] at hl ⊢
      intro ho
      obtain ⟨rfl, rest, he⟩ := opensLine_cons_iff.mp ho
      cases s with
      | nil => exact hc.1 (List.cons.inj he).1
      | cons b s => exact hl (opensLine_cons_iff.mpr ⟨rfl, s, (List.cons.inj he).1 ▸ rfl⟩)
    · rw [frontBlock?_eq_none_iff] at hb ⊢
      intro rest he hi
      obtain ⟨rfl, hlater⟩ := List.cons.inj he
      cases s with
      | nil => exact hc.2 (List.cons.inj hlater).1
      | cons b s =>
        obtain ⟨rfl, rfl⟩ := List.cons.inj hlater
        rcases (Text.infix_append_cons_iff hmark).mp hi with hi | hi
        · exact hb s rfl hi
        · exact hend hi

end MockServer.Interface
