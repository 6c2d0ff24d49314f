import Mathlib.Data.List.Nodup
import Mathlib.Data.List.TakeWhile
import MockServer.Proofs.Interface.CommentScanner

/-!
When two passes, first for block comments and then for line comments, find the comments that a
single scanner finds. Only a block comment that opens inside a line comment can part the two.
-/
namespace MockServer.Interface

/-- What follows the slashes of a line comment, where each closed block comment that opens before
the end of the line also ends there. -/
inductive StaysOnLine : List Char → Prop where
  | done : StaysOnLine []
  | newline (rest : List Char) : StaysOnLine ('\n' :: rest)
  | block {s later : List Char} (closed : frontBlock? s = some later)
      (sameLine : later.dropWhile (· != '\n') = s.dropWhile (· != '\n'))
      (more : StaysOnLine later) : StaysOnLine s
  | char {c : Char} {rest : List Char} (plain : frontBlock? (c :: rest) = none) (hc : c ≠ '\n')
      (more : StaysOnLine rest) : StaysOnLine (c :: rest)

/-- A line comment from its second slash on. That slash may open block comments itself, if they end
on the line and another slash follows them. -/
inductive StaysLineComment : List Char → Prop where
  | slash {rest : List Char} (plain : frontBlock? ('/' :: rest) = none)
      (more : StaysOnLine rest) : StaysLineComment ('/' :: rest)
  | block {s later : List Char} (closed : frontBlock? s = some later)
      (sameLine : later.dropWhile (· != '\n') = s.dropWhile (· != '\n'))
      (more : StaysLineComment later) : StaysLineComment s

/-- Texts in which the removal of block comments leaves every line comment one on its own line. -/
inductive CommentsApart : List Char → Prop where
  | nil : CommentsApart []
  | line {s : List Char} (opens : opensLine s = true) (stays : StaysLineComment s.tail)
      (more : CommentsApart (s.dropWhile (· != '\n'))) : CommentsApart s
  | block {s later : List Char} (closed : frontBlock? s = some later)
      (more : CommentsApart later) : CommentsApart s
  | char {c : Char} {rest : List Char} (noLine : opensLine (c :: rest) = false)
      (plain : frontBlock? (c :: rest) = none) (more : CommentsApart rest) :
      CommentsApart (c :: rest)

namespace Marked

variable {α : Type} {ch : α → Char}

private theorem lineEnd_cons {a : α} {s : List α} (ha : ch a ≠ '\n') :
    lineEnd ch (a :: s) = lineEnd ch s := by
  rw [lineEnd, List.dropWhile_cons_of_pos (by simpa using ha)]
  rfl

private theorem lineEnd_newline {a : α} {s : List α} (ha : ch a = '\n') :
    lineEnd ch (a :: s) = a :: s := by
  rw [lineEnd, List.dropWhile_cons_of_neg (by simpa using ha)]

/-- Ends of one marked text are equal when their characters are. -/
theorem lineEnd_endAs {s : List α} {later : List Char}
    (closed : frontBlock? (s.map ch) = some later)
    (sameLine : later.dropWhile (· != '\n') = (s.map ch).dropWhile (· != '\n')) :
    lineEnd ch (endAs s later) = lineEnd ch s := by
  have hlen : (lineEnd ch (endAs s later)).length = (lineEnd ch s).length := by
    have h : (lineEnd ch (endAs s later)).map ch = _ := map_lineEnd _
    rw [map_endAs (frontBlock?_suffix closed), sameLine, ← map_lineEnd] at h
    simpa using congrArg List.length h
  have hone := (lineEnd_suffix ch (endAs s later)).trans (endAs_suffix s later)
  exact (List.suffix_of_suffix_length_le hone (lineEnd_suffix ch s)
    (Nat.le_of_eq hlen)).eq_of_length hlen

private theorem blocks_of_staysOnLine {s : List Char} (h : StaysOnLine s) {t : List α}
    (ht : t.map ch = s) :
    ∃ u, (∀ y ∈ u, ch y ≠ '\n') ∧ blocks ch t = u ++ blocks ch (lineEnd ch t) := by
  induction h generalizing t with
  | done =>
    obtain rfl := List.map_eq_nil_iff.mp ht
    exact ⟨[], by simp, rfl⟩
  | newline rest =>
    obtain ⟨a, r, rfl, ha, _⟩ := List.map_eq_cons_iff.mp ht
    exact ⟨[], by simp, by rw [lineEnd_newline ha]; rfl⟩
  | block closed sameLine _ ih =>
    subst ht
    obtain ⟨u, hu, he⟩ := ih (map_endAs (frontBlock?_suffix closed))
    refine ⟨u, hu, ?_⟩
    rw [blocks_of_frontBlock closed, he, lineEnd_endAs closed sameLine]
  | char plain hc _ ih =>
    obtain ⟨a, r, rfl, rfl, hr⟩ := List.map_eq_cons_iff.mp ht
    obtain ⟨u, hu, he⟩ := ih hr
    refine ⟨a :: u, ?_, ?_⟩
    · rintro y hy
      rcases List.mem_cons.mp hy with rfl | hy
      · exact hc
      · exact hu y hy
    · rw [blocks_cons (ht ▸ plain), he, lineEnd_cons hc]
      rfl

private theorem blocks_of_staysLineComment {s : List Char} (h : StaysLineComment s) {t : List α}
    (ht : t.map ch = s) :
    ∃ a u, ch a = '/' ∧ (∀ y ∈ u, ch y ≠ '\n') ∧
      blocks ch t = a :: (u ++ blocks ch (lineEnd ch t)) := by
  induction h generalizing t with
  | slash plain more =>
    obtain ⟨a, r, rfl, ha, hr⟩ := List.map_eq_cons_iff.mp ht
    obtain ⟨u, hu, he⟩ := blocks_of_staysOnLine more hr
    refine ⟨a, u, ha, hu, ?_⟩
    rw [blocks_cons (ht ▸ plain), he, lineEnd_cons (by rw [ha]; decide)]
  | block closed sameLine _ ih =>
    subst ht
    obtain ⟨a, u, ha, hu, he⟩ := ih (map_endAs (frontBlock?_suffix closed))
    refine ⟨a, u, ha, hu, ?_⟩
    rw [blocks_of_frontBlock closed, he, lineEnd_endAs closed sameLine]

private theorem eq_newline_of_lineEnd {s r : List α} {n : α} (h : lineEnd ch s = n :: r) :
    ch n = '\n' := by
  have hn := List.head?_dropWhile_not (ch · != '\n') s
  rw [show s.dropWhile (ch · != '\n') = n :: r from h] at hn
  simpa using hn

private theorem lineEnd_of_mem {s e r : List α} (hs : s.Nodup) {n : α} (h : lineEnd ch s = n :: r)
    (he : e <:+ s) (hn : n ∈ e) : lineEnd ch e = n :: r := by
  have hsplit : s.takeWhile (ch · != '\n') ++ n :: r = s := by
    rw [← h]
    exact List.takeWhile_append_dropWhile
  obtain ⟨front, hf⟩ := he
  rw [← hsplit, List.append_eq_append_iff] at hf
  rcases hf with ⟨q, hq, rfl⟩ | ⟨q, hq, hr⟩
  · -- the end starts on the line
    have hplain : ∀ y ∈ q, (ch y != '\n') = true := by
      intro y hy
      have hmem : y ∈ s.takeWhile (ch · != '\n') := hq ▸ List.mem_append_right front hy
      have := List.mem_takeWhile_imp hmem
      exact this
    rw [lineEnd, List.dropWhile_append_of_pos hplain, List.dropWhile_cons_of_neg]
    rw [eq_newline_of_lineEnd h]
    decide
  · cases q with
    | nil =>
      rw [List.nil_append] at hr
      rw [← hr]
      exact lineEnd_newline (eq_newline_of_lineEnd h)
    | cons m q =>
      -- the end starts after the newline, which it cannot hold a second time
      cases hr
      rw [← hsplit] at hs
      have := (List.nodup_cons.mp (List.nodup_append.mp hs).2.1).1
      exact absurd (List.mem_append_right q hn) this

/-- A block comment ends on its line if the newline after the line survives it. -/
theorem sameLine_of_survives {s : List α} (hs : s.Nodup) {later : List Char}
    (closed : frontBlock? (s.map ch) = some later)
    (h : ∀ n r, lineEnd ch s = n :: r → n ∈ blocks ch s) :
    lineEnd ch (endAs s later) = lineEnd ch s := by
  have hsub := endAs_suffix s later
  cases hl : lineEnd ch s with
  | nil =>
    have hall := List.dropWhile_eq_nil_iff.mp hl
    exact List.dropWhile_eq_nil_iff.mpr fun y hy => hall y (hsub.subset hy)
  | cons n r =>
    have hn := h n r hl
    rw [blocks_of_frontBlock closed] at hn
    exact lineEnd_of_mem hs hl hsub ((blocks_sublist _).subset hn)

private theorem sameLine_map {s : List α} {later : List Char}
    (closed : frontBlock? (s.map ch) = some later)
    (h : lineEnd ch (endAs s later) = lineEnd ch s) :
    later.dropWhile (· != '\n') = (s.map ch).dropWhile (· != '\n') := by
  rw [← map_lineEnd, ← h, map_lineEnd, map_endAs (frontBlock?_suffix closed)]

private theorem staysOnLine_of_survives {s : List α} (hs : s.Nodup)
    (h : ∀ n r, lineEnd ch s = n :: r → n ∈ blocks ch s) : StaysOnLine (s.map ch) := by
  induction hlen : s.length using Nat.strongRecOn generalizing s with
  | _ len ih =>
    subst hlen
    cases s with
    | nil => exact .done
    | cons a s =>
      cases closed : frontBlock? ((a :: s).map ch) with
      | some later =>
        have hsame := sameLine_of_survives hs closed h
        refine .block closed (sameLine_map closed hsame) ?_
        rw [← map_endAs (frontBlock?_suffix closed)]
        refine ih _ (length_endAs_lt closed) (hs.sublist (endAs_suffix _ _).sublist) ?_ rfl
        intro n r hn
        rw [hsame] at hn
        rw [← blocks_of_frontBlock closed]
        exact h n r hn
      | none =>
        by_cases ha : ch a = '\n'
        · rw [List.map_cons, ha]
          exact .newline _
        · refine .char closed ha (ih s.length (by simp) (List.nodup_cons.mp hs).2 ?_ rfl)
          intro n r hn
          have hmem := h n r (by rw [lineEnd_cons ha]; exact hn)
          rw [blocks_cons closed] at hmem
          rcases List.mem_cons.mp hmem with rfl | hmem
          · exact absurd (eq_newline_of_lineEnd hn) ha
          · exact hmem

private theorem staysLineComment_of_survives {s : List α} (hs : s.Nodup) {a : α} {y : List α}
    (hy : blocks ch s = a :: y) (ha : ch a = '/')
    (h : ∀ n r, lineEnd ch s = n :: r → n ∈ blocks ch s) : StaysLineComment (s.map ch) := by
  induction hlen : s.length using Nat.strongRecOn generalizing s with
  | _ len ih =>
    subst hlen
    cases s with
    | nil => rw [blocks] at hy; cases hy
    | cons b s =>
      cases closed : frontBlock? ((b :: s).map ch) with
      | some later =>
        have hsame := sameLine_of_survives hs closed h
        refine .block closed (sameLine_map closed hsame) ?_
        rw [← map_endAs (frontBlock?_suffix closed)]
        rw [blocks_of_frontBlock closed] at hy
        refine ih _ (length_endAs_lt closed) (hs.sublist (endAs_suffix _ _).sublist) hy ?_ rfl
        intro n r hn
        rw [hsame] at hn
        rw [← blocks_of_frontBlock closed]
        exact h n r hn
      | none =>
        rw [blocks_cons closed] at hy
        cases hy
        have hline : ch a ≠ '\n' := by rw [ha]; decide
        rw [List.map_cons, ha]
        rw [List.map_cons, ha] at closed
        refine .slash closed (staysOnLine_of_survives (List.nodup_cons.mp hs).2 ?_)
        intro n r hn
        have hmem := h n r (by rw [lineEnd_cons hline]; exact hn)
        rw [blocks_cons (by rw [List.map_cons, ha]; exact closed)] at hmem
        rcases List.mem_cons.mp hmem with rfl | hmem
        · exact absurd (eq_newline_of_lineEnd hn) hline
        · exact hmem

private theorem opensLine_blocks {a : α} {s : List α} (hl : opensLine ((a :: s).map ch) = false) :
    opensLine ((a :: blocks ch s).map ch) = false := by
  rw [Bool.eq_false_iff, Ne, opensLine_map_iff] at hl ⊢
  rintro ⟨ha, b, r, hb, hslash⟩
  cases s with
  | nil => rw [blocks] at hb; cases hb
  | cons c s =>
    have hc : ch c ≠ '/' := fun hc => hl ⟨ha, c, s, rfl, hc⟩
    have hnone : frontBlock? ((c :: s).map ch) = none := by
      rw [List.map_cons]
      unfold frontBlock?
      split
      · rename_i heq
        exact absurd (List.cons.inj heq).1 hc
      · rfl
    rw [blocks_cons hnone] at hb
    exact hc ((List.cons.inj hb).1 ▸ hslash)

private theorem blocks_lineEnd_head {s : List α} {n : α} {r : List α} (h : lineEnd ch s = n :: r) :
    blocks ch (n :: r) = n :: blocks ch r := by
  apply blocks_cons
  rw [List.map_cons, eq_newline_of_lineEnd h]
  rfl

/-- The pass for line comments takes away what the other pass left of the line. -/
theorem lineEnd_line {s u : List α} (hu : ∀ y ∈ u, ch y ≠ '\n') :
    lineEnd ch (u ++ blocks ch (lineEnd ch s)) = blocks ch (lineEnd ch s) := by
  rw [lineEnd, List.dropWhile_append_of_pos (by simpa using hu)]
  cases h : lineEnd ch s with
  | nil => rw [blocks]; rfl
  | cons n r =>
    rw [blocks_lineEnd_head h, List.dropWhile_cons_of_neg]
    simpa using eq_newline_of_lineEnd h

private theorem commentsApart_line_iff {s : List Char} (h : opensLine s = true) :
    CommentsApart s ↔ StaysLineComment s.tail ∧ CommentsApart (s.dropWhile (· != '\n')) := by
  constructor
  · intro hs
    cases hs with
    | nil => cases h
    | line _ stays more => exact ⟨stays, more⟩
    | block closed =>
      cases s with
      | nil => cases closed
      | cons c s =>
        obtain ⟨rfl, rest, rfl⟩ := opensLine_cons_iff.mp h
        cases closed
    | char noLine => rw [noLine] at h; cases h
  · exact fun ⟨stays, more⟩ => .line h stays more

private theorem commentsApart_block_iff {s later : List Char} (hl : opensLine s = false)
    (h : frontBlock? s = some later) : CommentsApart s ↔ CommentsApart later := by
  constructor
  · intro hs
    cases hs with
    | nil => cases h
    | line opens => rw [hl] at opens; cases opens
    | block closed more =>
      rw [h] at closed
      cases closed
      exact more
    | char _ plain => rw [h] at plain; cases plain
  · exact .block h

private theorem commentsApart_char_iff {c : Char} {s : List Char} (hl : opensLine (c :: s) = false)
    (h : frontBlock? (c :: s) = none) : CommentsApart (c :: s) ↔ CommentsApart s := by
  constructor
  · intro hs
    cases hs with
    | line opens => rw [hl] at opens; cases opens
    | block closed => rw [h] at closed; cases closed
    | char _ _ more => exact more
  · exact .char hl h

private theorem stays_of_eq_outside {a b : α} {s : List α} (hs : (a :: b :: s).Nodup)
    (ha : ch a = '/') (hb : ch b = '/')
    (he : lines ch (a :: blocks ch (b :: s)) = outside ch (lineEnd ch s)) :
    StaysLineComment ((b :: s).map ch) := by
  have hnodup := List.nodup_cons.mp hs
  have hline : lineEnd ch (b :: s) = lineEnd ch s := lineEnd_cons (by rw [hb]; decide)
  have hsub : (outside ch (lineEnd ch s)).Sublist (b :: s) :=
    (outside_sublist _).trans (hline ▸ (lineEnd_suffix ch (b :: s)).sublist)
  have hopens : opensLine ((a :: blocks ch (b :: s)).map ch) = true := by
    by_contra hno
    rw [lines_cons (Bool.eq_false_iff.mpr hno)] at he
    exact hnodup.1 (hsub.subset (he ▸ List.mem_cons_self))
  obtain ⟨_, x, y, hy, hx⟩ := opensLine_map_iff.mp hopens
  refine staysLineComment_of_survives hnodup.2 hy hx ?_
  intro n r hn
  have hnl := eq_newline_of_lineEnd hn
  have hmem : n ∈ outside ch (lineEnd ch s) := by
    rw [← hline, hn, outside_cons]
    · exact List.mem_cons_self
    · rw [List.map_cons, hnl]
      rfl
    · rw [List.map_cons, hnl]
      rfl
  rw [← he] at hmem
  rcases List.mem_cons.mp ((lines_sublist _).subset hmem) with rfl | hmem
  · rw [ha] at hnl
    cases hnl
  · exact hmem

/-- The two passes keep the marks that the scanner keeps just for texts whose comments are apart. -/
theorem lines_blocks_eq_outside_iff {s : List α} (hs : s.Nodup) :
    lines ch (blocks ch s) = outside ch s ↔ CommentsApart (s.map ch) := by
  induction hlen : s.length using Nat.strongRecOn generalizing s with
  | _ len ih =>
    subst hlen
    cases s with
    | nil =>
      rw [blocks, lines, outside]
      exact ⟨fun _ => .nil, fun _ => rfl⟩
    | cons a s =>
      by_cases hl : opensLine ((a :: s).map ch) = true
      · -- a line comment: both sides go on after its line once it stays one
        obtain ⟨ha, b, s, rfl, hb⟩ := opensLine_map_iff.mp hl
        have hne : ch a ≠ '\n' := by rw [ha]; decide
        have hnone : frontBlock? ((a :: b :: s).map ch) = none := by
          rw [List.map_cons, List.map_cons, ha, hb]
          rfl
        have hline : lineEnd ch (a :: b :: s) = lineEnd ch (b :: s) := lineEnd_cons hne
        have hlt : (lineEnd ch (b :: s)).length < (a :: b :: s).length :=
          Nat.lt_succ_of_le (lineEnd_suffix ch (b :: s)).length_le
        have hrest := ih _ hlt
          ((List.nodup_cons.mp hs).2.sublist (lineEnd_suffix ch (b :: s)).sublist) rfl
        rw [blocks_cons hnone, outside_of_opensLine hl, hline, commentsApart_line_iff hl,
          ← map_lineEnd, hline, ← hrest, List.map_cons, List.tail_cons]
        have hgo : StaysLineComment ((b :: s).map ch) →
            lines ch (a :: blocks ch (b :: s)) = lines ch (blocks ch (lineEnd ch (b :: s))) := by
          intro hstays
          obtain ⟨x, u, hx, hu, he⟩ := blocks_of_staysLineComment hstays rfl
          rw [he, lines_of_opensLine (opensLine_map_iff.mpr ⟨ha, x, _, rfl, hx⟩),
            lineEnd_cons hne, lineEnd_cons (by rw [hx]; decide), lineEnd_line hu]
        constructor
        · intro he
          have hstays : StaysLineComment ((b :: s).map ch) := by
            refine stays_of_eq_outside hs ha hb ?_
            rw [he, lineEnd_cons (by rw [hb]; decide)]
          exact ⟨hstays, hgo hstays ▸ he⟩
        · rintro ⟨hstays, he⟩
          rw [hgo hstays, he]
      · replace hl := Bool.eq_false_iff.mpr hl
        cases hb : frontBlock? ((a :: s).map ch) with
        | some later =>
          have hrest := ih _ (length_endAs_lt hb) (hs.sublist (endAs_suffix _ _).sublist) rfl
          rw [map_endAs (frontBlock?_suffix hb)] at hrest
          rw [blocks_of_frontBlock hb, outside_of_frontBlock hl hb, hrest,
            commentsApart_block_iff hl hb]
        | none =>
          have hrest := ih s.length (Nat.lt_succ_self _) (List.nodup_cons.mp hs).2 rfl
          rw [blocks_cons hb, outside_cons hl hb, lines_cons (opensLine_blocks hl),
            List.map_cons, commentsApart_char_iff hl hb, ← hrest, List.cons_inj_right]

end Marked

/-- What the two passes keep of a text, each character with its place. -/
def keptByPasses (s : List Char) : List (Char × Nat) :=
  Marked.lines Prod.fst (Marked.blocks Prod.fst s.zipIdx)

/-- What the scanner keeps of a text, each character with its place. -/
def keptByScanner (s : List Char) : List (Char × Nat) := Marked.outside Prod.fst s.zipIdx

private theorem map_keptByPasses (s : List Char) :
    (keptByPasses s).map Prod.fst = withoutComments s := by
  rw [keptByPasses, Marked.map_lines, Marked.map_blocks, List.zipIdx_map_fst]
  rfl

private theorem map_keptByScanner (s : List Char) :
    (keptByScanner s).map Prod.fst = outsideComments s := by
  rw [keptByScanner, Marked.map_outside, List.zipIdx_map_fst]

/-- Texts without comments that start in a line comment and leave it are stripped as the scanner
strips them. For all others the passes and the scanner keep characters at different places. -/
theorem passes_agree_with_scanner_iff (s : List Char) :
    (CommentsApart s → withoutComments s = outsideComments s) ∧
    (keptByPasses s).map Prod.fst = withoutComments s ∧
    (keptByScanner s).map Prod.fst = outsideComments s ∧
    (keptByPasses s = keptByScanner s ↔ CommentsApart s) := by
  have hiff : keptByPasses s = keptByScanner s ↔ CommentsApart s := by
    have hnodup : s.zipIdx.Nodup := by
      refine List.Nodup.of_map Prod.snd ?_
      rw [List.zipIdx_map_snd]
      exact List.nodup_range'
    have h : keptByPasses s = keptByScanner s ↔ CommentsApart (s.zipIdx.map Prod.fst) :=
      Marked.lines_blocks_eq_outside_iff hnodup
    rwa [List.zipIdx_map_fst] at h
  refine ⟨fun hs => ?_, map_keptByPasses s, map_keptByScanner s, hiff⟩
  rw [← map_keptByPasses, hiff.mpr hs, map_keptByScanner]

/-- A block comment that opens in a line comment takes the next line with it. -/
theorem line_comment_loses_next_line :
    withoutComments "// /*\na */".toList = [] ∧
    outsideComments "// /*\na */".toList = "\na */".toList ∧
    ¬ CommentsApart "// /*\na */".toList := by
  have hpasses : withoutComments "// /*\na */".toList = [] := by cbv
  have hscanner : outsideComments "// /*\na */".toList = "\na */".toList := by cbv
  refine ⟨hpasses, hscanner, fun hs => ?_⟩
  have h := (passes_agree_with_scanner_iff _).1 hs
  rw [hpasses, hscanner] at h
  exact absurd h (by decide)

end MockServer.Interface
