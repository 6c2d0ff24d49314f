import Mathlib.Data.List.Forall2
import MockServer.Proofs.Interface.InsertionReading
import MockServer.Proofs.Interface.Padding

/-!
White space next to a newline. Comments, the header and the braces of a body stay where they are,
and each member of a literal is in a piece of its own before and after.
-/
namespace MockServer.Interface

open MockServer.Text

/-- White space inside of a line. -/
structure Space where
  char : Char
  isBlank_char : isBlank char = true
  ne_newline : char ≠ '\n'

namespace Space

/-- The ends and the starts of lines. -/
def seam (w : Space) : Seam where
  blank := w.char
  before := ['\n']
  after := ['\n']
  isBlank_blank := w.isBlank_char
  before_loose := by decide
  after_loose := by decide

variable (w : Space) {c : Char}

theorem ne (h : isBlank c = false) : w.char ≠ c := w.seam.blank_ne h

theorem depthAfter_char (d : Nat) : depthAfter d w.char = d := by
  obtain ⟨ho, hc⟩ := not_bracket_of (by decide) w.isBlank_char
  exact depthAfter_plain ho hc

theorem not_mem_edges (h : isBlank c = false) : c ∉ w.seam.edges := by
  have hnewline : c ≠ '\n' := by
    rintro rfl
    cases h
  have hchar := (w.ne h).symm
  simp [Seam.edges, seam, hnewline, hchar]

end Space

/-- A text and the same text, itself or with one blank more next to a newline. -/
abbrev Spaced (w : Space) : List Char → List Char → Prop := Inserted w.seam

variable {w : Space} {s t : List Char} {d : Nat}

theorem Spaced.induction {motive : (s t : List Char) → Spaced w s t → Prop}
    (same : ∀ s, motive s s (.same s))
    (before : ∀ s, motive ('\n' :: s) (w.char :: '\n' :: s) (.before List.mem_cons_self s))
    (after : ∀ s, motive ('\n' :: s) ('\n' :: w.char :: s) (.after List.mem_cons_self s))
    (cons : ∀ c s t (rest : Spaced w s t), motive s t rest →
      motive (c :: s) (c :: t) (rest.cons c))
    {s t : List Char} (h : Spaced w s t) : motive s t h := by
  induction h with
  | same s => exact same s
  | before edge s =>
    obtain rfl := List.mem_singleton.mp edge
    exact before s
  | after edge s =>
    obtain rfl := List.mem_singleton.mp edge
    exact after s
  | cons c rest ih => exact cons c _ _ rest ih

/-! Comments -/

private theorem opensLine_of_ne {c : Char} (hc : c ≠ '/') (s : List Char) :
    opensLine (c :: s) = false :=
  Bool.eq_false_iff.mpr fun ho => hc (opensLine_cons_iff.mp ho).1

namespace Spaced

private theorem dropLine (h : Spaced w s t) :
    Spaced w (s.dropWhile (· != '\n')) (t.dropWhile (· != '\n')) :=
  h.dropWhile fun _ _ _ => bne_iff_ne.mpr w.ne_newline

/-- A blank at the end of a line goes with the comment there. -/
theorem withoutLines (h : Spaced w s t) : Spaced w (withoutLines s) (withoutLines t) := by
  induction hlen : s.length using Nat.strongRecOn generalizing s t with | _ len ih
  have hblank (s : List Char) :
      Interface.withoutLines (w.char :: s) = w.char :: Interface.withoutLines s :=
    withoutLines_cons (opensLine_of_ne (w.ne (by decide)) s)
  have hnewline (s : List Char) :
      Interface.withoutLines ('\n' :: s) = '\n' :: Interface.withoutLines s :=
    withoutLines_cons (opensLine_of_ne (by decide) s)
  have ht := h.opensLine_eq
  cases ho : opensLine s with
  | true =>
    rw [ho] at ht
    rw [withoutLines_of_opensLine ho, withoutLines_of_opensLine ht.symm]
    refine ih _ ?_ h.dropLine rfl
    cases s with
    | nil => cases ho
    | cons c s =>
      have hlt := (List.dropWhile_sublist (· != '\n') (l := s)).length_le
      rw [(opensLine_cons_iff.mp ho).1, List.dropWhile_cons_of_pos (by decide), ← hlen,
        List.length_cons]
      omega
  | false =>
    rw [ho] at ht
    induction h using Spaced.induction with
    | same => exact .same _
    | before s =>
      rw [hblank, hnewline]
      exact .before List.mem_cons_self _
    | after s =>
      rw [hnewline, hnewline, hblank]
      exact .after List.mem_cons_self _
    | cons c s t rest =>
      rw [withoutLines_cons ho, withoutLines_cons ht.symm]
      exact (ih _ (by rw [← hlen]; simp) rest rfl).cons c

theorem withoutComments (h : Spaced w s t) : Spaced w (withoutComments s) (withoutComments t) :=
  withoutLines h.withoutBlocks

end Spaced

/-! Braces -/

/-- What was kept before only stands in front. -/
theorem closeAfter?_eq (d : Nat) (kept s : List Char) :
    closeAfter? d kept s = (closeAfter? d [] s).map (kept.reverse ++ ·) := by
  induction s generalizing d kept with
  | nil => rfl
  | cons c s ih =>
    rw [closeAfter?, closeAfter?, ih (d + 1), ih (d - 1), ih d, ih (d + 1) [c], ih (d - 1) [c],
      ih d [c]]
    split_ifs <;> simp [Function.comp_def]

theorem closeAfter?_opening (d : Nat) (s : List Char) :
    closeAfter? d [] ('\x7b' :: s) = (closeAfter? (d + 1) [] s).map ('\x7b' :: ·) := by
  rw [closeAfter?, if_pos rfl, closeAfter?_eq]
  rfl

theorem closeAfter?_closing (d : Nat) (s : List Char) :
    closeAfter? (d + 1) [] ('\x7d' :: s) = (closeAfter? d [] s).map ('\x7d' :: ·) := by
  rw [closeAfter?, if_neg (by decide), if_pos rfl, if_neg (Nat.succ_ne_zero d), closeAfter?_eq]
  rfl

theorem closeAfter?_plain {c : Char} (ho : c ≠ '\x7b') (hc : c ≠ '\x7d') (d : Nat)
    (s : List Char) : closeAfter? d [] (c :: s) = (closeAfter? d [] s).map (c :: ·) := by
  rw [closeAfter?, if_neg ho, if_neg hc, closeAfter?_eq]
  rfl

namespace Spaced

/-- A brace closes at the same place, and the blank is before it or after it. -/
theorem closeAfter? (h : Spaced w s t) (d : Nat) :
    Option.Rel (Spaced w) (closeAfter? d [] s) (closeAfter? d [] t) := by
  have hblank (d : Nat) (s : List Char) : Interface.closeAfter? d [] (w.char :: s) =
      (Interface.closeAfter? d [] s).map (w.char :: ·) :=
    closeAfter?_plain (w.ne (by decide)) (w.ne (by decide)) d s
  have hnewline (d : Nat) (s : List Char) : Interface.closeAfter? d [] ('\n' :: s) =
      (Interface.closeAfter? d [] s).map ('\n' :: ·) :=
    closeAfter?_plain (by decide) (by decide) d s
  induction h using Spaced.induction generalizing d with
  | same => exact Inserted.rel_refl _
  | before s =>
    rw [hblank, hnewline]
    cases Interface.closeAfter? d [] s with
    | none => exact .none
    | some i => exact .some (.before List.mem_cons_self i)
  | after s =>
    rw [hnewline, hnewline, hblank]
    cases Interface.closeAfter? d [] s with
    | none => exact .none
    | some i => exact .some (.after List.mem_cons_self i)
  | cons c s t rest ih =>
    have hcons {a b : Option (List Char)} (hab : Option.Rel (Spaced w) a b) :
        Option.Rel (Spaced w) (a.map (c :: ·)) (b.map (c :: ·)) := by
      cases hab with
      | none => exact .none
      | some h => exact .some (h.cons c)
    by_cases ho : c = '\x7b'
    · subst ho
      rw [closeAfter?_opening, closeAfter?_opening]
      exact hcons (ih (d + 1))
    by_cases hc : c = '\x7d'
    · subst hc
      cases d with
      | zero => exact .some (.same [])
      | succ d =>
        rw [closeAfter?_closing, closeAfter?_closing]
        exact hcons (ih d)
    · rw [closeAfter?_plain ho hc, closeAfter?_plain ho hc]
      exact hcons (ih d)

theorem insideBrace (h : Spaced w s t) : Spaced w (insideBrace s) (insideBrace t) := by
  have hclose := h.closeAfter? 0
  unfold Interface.insideBrace
  generalize Interface.closeAfter? 0 [] s = a at hclose ⊢
  generalize Interface.closeAfter? 0 [] t = b at hclose ⊢
  cases hclose with
  | none => exact h
  | some hi => exact hi

private theorem literalBody (h : Spaced w s t) : Spaced w (literalBody s) (literalBody t) := by
  have hd := h.dropWhile (p := (· != '\x7b')) fun _ _ _ => bne_iff_ne.mpr (w.ne (by decide))
  refine Spaced.insideBrace ?_
  cases hs : s.dropWhile (· != '\x7b') with
  | nil =>
    rw [hs] at hd
    rw [hd.eq_nil_iff.mp rfl]
    exact .same _
  | cons c x =>
    obtain rfl : c = '\x7b' := by simpa using of_dropWhile_cons hs
    rcases hd.cons_cases (w.not_mem_edges (c := '\x7b') (by decide)) with
      ⟨x, y, hx, hy, hxy⟩ | ⟨hno, -⟩
    · rw [← hs, hx, hy]
      exact hxy
    · exact absurd hs (hno x)

end Spaced

/-! Pieces -/

/-- A piece and the same piece, itself or with the blank in it or at one of its ends. -/
def NearPiece (w : Space) (p q : List Char) : Prop :=
  Spaced w p q ∨ q = p ++ [w.char] ∨ q = w.char :: p

/-- The pieces of two texts. Only a separator has the blank behind it, so the first piece, which may
go on in front, does not start with it. -/
inductive NearPieces (w : Space) : List (List Char) → List (List Char) → Prop
  | cons {p q : List Char} {ps qs : List (List Char)} (head : Spaced w p q ∨ q = p ++ [w.char])
    (tail : List.Forall₂ (NearPiece w) ps qs) : NearPieces w (p :: ps) (q :: qs)

variable {ps qs : List (List Char)} (isSeparator : Char → Bool)

private theorem forall₂_nearPiece_refl (ps : List (List Char)) : List.Forall₂ (NearPiece w) ps ps :=
  List.forall₂_same.mpr fun p _ => Or.inl (.same p)

theorem NearPieces.forall₂ (h : NearPieces w ps qs) : List.Forall₂ (NearPiece w) ps qs := by
  obtain ⟨head, tail⟩ := h
  refine .cons ?_ tail
  rcases head with h | h
  · exact .inl h
  · exact .inr (.inl h)

private theorem NearPieces.modifyHead (h : NearPieces w ps qs) (c : Char) :
    NearPieces w (ps.modifyHead (c :: ·)) (qs.modifyHead (c :: ·)) := by
  obtain ⟨head, tail⟩ := h
  refine .cons ?_ tail
  rcases head with h | rfl
  · exact .inl (h.cons c)
  · exact .inr rfl

theorem separates_or_not (d : Nat) (c : Char) :
    d = 0 ∧ isSeparator c = true ∨ (d = 0 → isSeparator c = false) := by
  cases isSeparator c with
  | true => exact (em (d = 0)).imp (⟨·, rfl⟩) fun hd h => absurd h hd
  | false => exact .inr fun _ => rfl

theorem exists_cutFrom (d : Nat) (s : List Char) :
    ∃ p ps, cutFrom isSeparator d s = p :: ps := by
  induction s generalizing d with
  | nil => exact ⟨[], [], rfl⟩
  | cons c s ih =>
    rcases separates_or_not isSeparator d c with ⟨rfl, hc⟩ | hc
    · exact ⟨_, _, cutFrom_separator hc⟩
    · obtain ⟨p, ps, hs⟩ := ih (depthAfter d c)
      refine ⟨c :: p, ps, ?_⟩
      rw [cutFrom_cons hc, hs]
      rfl

variable {isSeparator} in
private theorem cutFrom_space (hw : isSeparator w.char = false) (d : Nat) (s : List Char) :
    cutFrom isSeparator d (w.char :: s) =
      (cutFrom isSeparator d s).modifyHead (w.char :: ·) := by
  rw [cutFrom_cons fun _ => hw, w.depthAfter_char]

/-- A blank in front of a text stands in front of its first piece. -/
theorem forall₂_cutFrom_space (hw : isSeparator w.char = false) (d : Nat) (s : List Char) :
    List.Forall₂ (NearPiece w) (cutFrom isSeparator d s)
      (cutFrom isSeparator d (w.char :: s)) := by
  obtain ⟨p, ps, hs⟩ := exists_cutFrom isSeparator d s
  rw [cutFrom_space hw, hs]
  exact .cons (.inr (.inr rfl)) (forall₂_nearPiece_refl ps)

namespace Spaced

theorem cutFrom (h : Spaced w s t) (hw : isSeparator w.char = false) (d : Nat) :
    NearPieces w (cutFrom isSeparator d s) (cutFrom isSeparator d t) := by
  induction h using Spaced.induction generalizing d with
  | same s =>
    obtain ⟨p, ps, hs⟩ := exists_cutFrom isSeparator d s
    rw [hs]
    exact .cons (.inl (.same p)) (forall₂_nearPiece_refl ps)
  | before s =>
    rw [cutFrom_space hw]
    rcases separates_or_not isSeparator d '\n' with ⟨rfl, hc⟩ | hc
    · -- the newline ends the first piece, and the blank is the last character of that
      rw [cutFrom_separator hc]
      exact .cons (.inr rfl) (forall₂_nearPiece_refl _)
    · rw [cutFrom_cons hc]
      obtain ⟨p, ps, hs⟩ := exists_cutFrom isSeparator (depthAfter d '\n') s
      rw [hs]
      exact .cons (.inl (.before List.mem_cons_self p)) (forall₂_nearPiece_refl ps)
  | after s =>
    rcases separates_or_not isSeparator d '\n' with ⟨rfl, hc⟩ | hc
    · -- the blank starts the second piece
      rw [cutFrom_separator hc, cutFrom_separator hc]
      exact .cons (.inl (.same [])) (forall₂_cutFrom_space isSeparator hw 0 s)
    · rw [cutFrom_cons hc, cutFrom_cons hc, cutFrom_space hw]
      obtain ⟨p, ps, hs⟩ := exists_cutFrom isSeparator (depthAfter d '\n') s
      rw [hs]
      exact .cons (.inl (.after List.mem_cons_self p)) (forall₂_nearPiece_refl ps)
  | cons c s t rest ih =>
    rcases separates_or_not isSeparator d c with ⟨rfl, hc⟩ | hc
    · rw [cutFrom_separator hc, cutFrom_separator hc]
      exact .cons (.inl (.same [])) (ih 0).forall₂
    · rw [cutFrom_cons hc, cutFrom_cons hc]
      exact (ih _).modifyHead c

end Spaced

/-! Fields -/

/-- The field that a piece declares. -/
def pieceField? (piece : List Char) : Option (String × FieldType) :=
  (readPiece? piece).map Declaration.field

def fieldsIn (pieces : List (List Char)) : List (String × FieldType) :=
  pieces.filterMap pieceField?

theorem map_field_filterMap (ps : List (List Char)) :
    (ps.filterMap readPiece?).map Declaration.field = fieldsIn ps := List.map_filterMap

private theorem NearPiece.trim {p q : List Char} (h : NearPiece w p q) :
    Spaced w (trim p) (trim q) := by
  rcases h with h | rfl | rfl
  · exact Inserted.trim h
  · rw [trim_append_blanks (by simpa using w.isBlank_char)]
    exact .same _
  · rw [trim_cons_of_blank w.isBlank_char]
    exact .same _

/-- Pieces with a blank more declare the same, if this holds of the declarations read from them. -/
theorem fieldsIn_eq_of_nearPiece (h : List.Forall₂ (NearPiece w) ps qs)
    (hf : ∀ p ∈ ps, ∀ d e, readPiece? p = some d → Declaration.SameBut w.seam d e →
      d.fieldType = e.fieldType) : fieldsIn ps = fieldsIn qs := by
  induction h with
  | nil => rfl
  | @cons p q ps qs hpq _ ih =>
    have hfield : pieceField? p = pieceField? q :=
      map_field_eq (hpq.trim.read? (trimEnd_trimEnd _)) (hf p List.mem_cons_self)
    have hrest : fieldsIn ps = fieldsIn qs := ih fun p hp => hf p (List.mem_cons_of_mem _ hp)
    unfold fieldsIn at hrest ⊢
    rw [List.filterMap_cons, List.filterMap_cons, hfield, hrest]

/-- The shape of a field does not depend on the blanks next to the newlines of its literals. -/
theorem Declaration.SameBut.fieldType_eq {d e : Declaration} (h : SameBut w.seam d e) :
    d.fieldType = e.fieldType := by
  induction hlen : d.type.length using Nat.strongRecOn generalizing d e with | _ len ih
  refine h.fieldType_eq_of_members (congrArg Fields.ofList ?_)
  have hw : endsMember w.char = false := by
    have := w.ne (c := ',') (by decide)
    have := w.ne (c := ';') (by decide)
    simp [endsMember, w.ne_newline, *]
  have hcut := (Spaced.cutFrom endsMember (Spaced.literalBody h.baseType) hw 0).forall₂
  refine (map_field_filterMap _).trans (Eq.trans ?_ (map_field_filterMap _).symm)
  refine fieldsIn_eq_of_nearPiece hcut ?_
  intro p hp m m' hm hmm
  -- a member's type is shorter than the literal
  have hlt : m.type.length < len := by
    have h1 := length_type_lt hm
    have h2 := trim_length_le p
    have h3 := length_le_of_mem_cut hp
    have h4 := length_literalBody_le d.baseType
    have h5 := length_baseType_le d
    omega
  exact ih _ hlt hmm rfl

theorem fieldsIn_eq (h : List.Forall₂ (NearPiece w) ps qs) : fieldsIn ps = fieldsIn qs :=
  fieldsIn_eq_of_nearPiece h fun _ _ _ _ _ hde => hde.fieldType_eq

end MockServer.Interface
