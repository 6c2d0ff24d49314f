import MockServer.Proofs.Interface.CommentScanner
import MockServer.Proofs.Text.Identifier

/-!
One blank more in a text, next to characters at which no word goes on and no comment opens or
closes. What is made of other characters is found as before.
-/
namespace MockServer.Interface

open MockServer.Text

/-- Whether a character may stand next to the blank: blanks, braces, separators of members. -/
def isLoose (c : Char) : Bool := isBlank c || ['\x7b', ';', ',', '\x7d'].contains c

/-- A blank, and the characters in front of which and behind which it may be put. -/
structure Seam where
  blank : Char
  before : List Char
  after : List Char
  isBlank_blank : isBlank blank = true
  before_loose : ∀ c ∈ before, isBlank c = true ∨ c = '\x7d'
  after_loose : ∀ c ∈ after, isBlank c = true ∨ c ∈ ['\x7b', ';', ',']

/-- The blank, and the characters next to it. -/
def Seam.edges (σ : Seam) : List Char := σ.blank :: (σ.before ++ σ.after)

/-- A text and the same text, itself or with one blank more. -/
inductive Inserted (σ : Seam) : List Char → List Char → Prop
  | same (s : List Char) : Inserted σ s s
  | before {c : Char} (edge : c ∈ σ.before) (s : List Char) :
    Inserted σ (c :: s) (σ.blank :: c :: s)
  | after {c : Char} (edge : c ∈ σ.after) (s : List Char) :
    Inserted σ (c :: s) (c :: σ.blank :: s)
  | cons (c : Char) {s t : List Char} (rest : Inserted σ s t) : Inserted σ (c :: s) (c :: t)

/-- A text without characters that may stand next to the blank. -/
def Solid (z : List Char) : Prop := ∀ c ∈ z, isLoose c = false

/-- Decided over the characters of the text. Batteries has an instance for statements about all
characters, which would run through every one of them. -/
instance (priority := 1100) decidableForallMem {p : Char → Prop} [DecidablePred p]
    (s : List Char) : Decidable (∀ c ∈ s, p c) :=
  List.decidableBAll p s

instance (z : List Char) : Decidable (Solid z) :=
  inferInstanceAs (Decidable (∀ c ∈ z, isLoose c = false))

private theorem isLoose_of_isBlank {c : Char} (h : isBlank c = true) : isLoose c = true := by
  rw [isLoose, h, Bool.true_or]

private theorem not_isWord_of_isLoose {c : Char} (h : isLoose c = true) : isWord c = false := by
  rcases Bool.or_eq_true_iff.mp h with hb | hm
  · exact not_isWord_of_isBlank hb
  · have hw : ∀ c ∈ ['\x7b', ';', ',', '\x7d'], isWord c = false := by decide
    exact hw c (List.contains_iff_mem.mp hm)

theorem foldCase_of_isLoose {c : Char} (h : isLoose c = true) : foldCase c = [c] := by
  rcases Bool.or_eq_true_iff.mp h with hb | hm
  · have hkept : ∀ c ∈ blanks, foldCase c = [c] := by decide +kernel
    exact hkept c (mem_blanks hb)
  · have hkept : ∀ c ∈ ['\x7b', ';', ',', '\x7d'], foldCase c = [c] := by decide
    exact hkept c (List.contains_iff_mem.mp hm)

namespace Seam

variable {σ : Seam} {c : Char}

theorem blank_mem_edges (σ : Seam) : σ.blank ∈ σ.edges := List.mem_cons_self

theorem mem_edges_of_before (h : c ∈ σ.before) : c ∈ σ.edges :=
  List.mem_cons_of_mem _ (List.mem_append_left _ h)

theorem mem_edges_of_after (h : c ∈ σ.after) : c ∈ σ.edges :=
  List.mem_cons_of_mem _ (List.mem_append_right _ h)

theorem isLoose_of_mem (h : c ∈ σ.edges) : isLoose c = true := by
  rcases List.mem_cons.mp h with rfl | h
  · exact isLoose_of_isBlank σ.isBlank_blank
  rcases List.mem_append.mp h with h | h
  · rcases σ.before_loose c h with hb | rfl
    · exact isLoose_of_isBlank hb
    · rfl
  · rcases σ.after_loose c h with hb | hm
    · exact isLoose_of_isBlank hb
    · exact Bool.or_eq_true_iff.mpr
        (.inr (List.contains_iff_mem.mpr (List.mem_append_left ['\x7d'] hm)))

theorem not_mem_edges (h : isLoose c = false) : c ∉ σ.edges := by
  intro hc
  rw [isLoose_of_mem hc] at h
  cases h

theorem not_isWord_of_mem (h : c ∈ σ.edges) : isWord c = false :=
  not_isWord_of_isLoose (isLoose_of_mem h)

theorem not_mem_before (h : isBlank c = false) (hc : c ≠ '\x7d') : c ∉ σ.before := by
  intro hm
  rcases σ.before_loose c hm with hb | he
  · rw [hb] at h
    cases h
  · exact hc he

theorem blank_ne (h : isBlank c = false) : σ.blank ≠ c := by
  rintro rfl
  rw [σ.isBlank_blank] at h
  cases h

end Seam

namespace Solid

variable {σ : Seam} {c : Char} {z s : List Char}

private theorem tail (h : Solid (c :: z)) : Solid z := fun e he => h e (List.mem_cons_of_mem c he)

private theorem prefix_cons_iff (h : Solid z) (hc : c ∈ σ.edges) : z <+: c :: s ↔ z = [] := by
  constructor
  · intro hz
    cases z with
    | nil => rfl
    | cons d z =>
      obtain ⟨rfl, -⟩ := List.cons_prefix_cons.mp hz
      exact absurd hc (Seam.not_mem_edges (h d List.mem_cons_self))
  · rintro rfl
    exact List.nil_prefix

private theorem suffix_cons_iff (h : Solid z) (hc : c ∈ σ.edges) : z <:+ c :: s ↔ z <:+ s := by
  rw [List.suffix_cons_iff]
  refine or_iff_right_of_imp ?_
  rintro rfl
  exact absurd hc (Seam.not_mem_edges (h c List.mem_cons_self))

private theorem infix_cons_iff (h : Solid z) (hc : c ∈ σ.edges) : z <:+: c :: s ↔ z <:+: s := by
  rw [List.infix_cons_iff, h.prefix_cons_iff hc]
  refine or_iff_right_of_imp ?_
  rintro rfl
  exact List.nil_infix

end Solid

namespace Inserted

variable {σ : Seam} {s t x y z : List Char} {c : Char}

/-! Parts of the text -/

theorem append_left (u : List Char) (h : Inserted σ s t) : Inserted σ (u ++ s) (u ++ t) := by
  induction u with
  | nil => exact h
  | cons c u ih => exact ih.cons c

theorem append_right (h : Inserted σ s t) (u : List Char) : Inserted σ (s ++ u) (t ++ u) := by
  induction h with
  | same => exact .same _
  | before edge s => exact .before edge (s ++ u)
  | after edge s => exact .after edge (s ++ u)
  | cons c _ ih => exact ih.cons c

/-- The blank falls into one of two parts. -/
theorem of_append (h : Inserted σ (x ++ y) t) :
    (∃ x', Inserted σ x x' ∧ t = x' ++ y) ∨ ∃ y', Inserted σ y y' ∧ t = x ++ y' := by
  induction x generalizing t with
  | nil => exact .inr ⟨t, h, rfl⟩
  | cons c x ih =>
    cases h with
    | same => exact .inl ⟨_, .same _, rfl⟩
    | before edge => exact .inl ⟨_, .before edge x, rfl⟩
    | after edge => exact .inl ⟨_, .after edge x, rfl⟩
    | cons _ rest =>
      rcases ih rest with ⟨x', hx, rfl⟩ | ⟨y', hy, rfl⟩
      · exact .inl ⟨_, hx.cons c, rfl⟩
      · exact .inr ⟨y', hy, rfl⟩

theorem eq_nil_iff (h : Inserted σ s t) : s = [] ↔ t = [] := by
  cases h <;> simp

/-- A solid text has no place for the blank. -/
theorem eq_of_solid (h : Inserted σ s t) (hs : Solid s ∨ Solid t) : s = t := by
  have hno {c : Char} {s : List Char} (hs : Solid s) (hc : c ∈ σ.edges) : c ∉ s :=
    fun hm => Seam.not_mem_edges (hs c hm) hc
  induction h with
  | same => rfl
  | before edge =>
    have hc := Seam.mem_edges_of_before edge
    rcases hs with hs | hs <;> exact absurd (by simp) (hno hs hc)
  | after edge =>
    have hc := Seam.mem_edges_of_after edge
    rcases hs with hs | hs <;> exact absurd (by simp) (hno hs hc)
  | cons c _ ih => rw [ih (hs.imp Solid.tail Solid.tail)]

/-- A first character to which the blank cannot be next comes first in both texts. -/
theorem cons_cases (h : Inserted σ s t) (hc : c ∉ σ.edges) :
    (∃ x y, s = c :: x ∧ t = c :: y ∧ Inserted σ x y) ∨
      (∀ x, s ≠ c :: x) ∧ ∀ y, t ≠ c :: y := by
  have hne {e : Char} (he : e ∈ σ.edges) {x y : List Char} : e :: x ≠ c :: y := by
    rintro ⟨⟩
    exact hc he
  cases h with
  | same =>
    by_cases hs : ∃ x, s = c :: x
    · obtain ⟨x, rfl⟩ := hs
      exact .inl ⟨x, x, rfl, rfl, .same x⟩
    · exact .inr ⟨not_exists.mp hs, not_exists.mp hs⟩
  | before edge =>
    exact .inr ⟨fun _ => hne (Seam.mem_edges_of_before edge), fun _ => hne σ.blank_mem_edges⟩
  | after edge =>
    have he := Seam.mem_edges_of_after edge
    exact .inr ⟨fun _ => hne he, fun _ => hne he⟩
  | @cons e s t rest =>
    by_cases he : e = c
    · subst he
      exact .inl ⟨s, t, rfl, rfl, rest⟩
    · exact .inr ⟨fun _ h => he (List.cons.inj h).1, fun _ h => he (List.cons.inj h).1⟩

theorem mem_iff (h : Inserted σ s t) (hc : c ≠ σ.blank) : c ∈ s ↔ c ∈ t := by
  induction h with
  | same => rfl
  | before => simp [hc]
  | after => simp [hc]
  | cons e _ ih => rw [List.mem_cons, List.mem_cons, ih]

/-! Solid parts -/

private theorem prefix_iff (h : Inserted σ s t) (hz : Solid z) : z <+: s ↔ z <+: t := by
  induction h generalizing z with
  | same => rfl
  | before edge =>
    rw [hz.prefix_cons_iff (Seam.mem_edges_of_before edge), hz.prefix_cons_iff σ.blank_mem_edges]
  | after edge =>
    have hc := Seam.mem_edges_of_after edge
    rw [hz.prefix_cons_iff hc, hz.prefix_cons_iff hc]
  | cons c _ ih =>
    cases z with
    | nil => simp
    | cons d z => rw [List.cons_prefix_cons, List.cons_prefix_cons, ih hz.tail]

theorem infix_iff (h : Inserted σ s t) (hz : Solid z) : z <:+: s ↔ z <:+: t := by
  induction h with
  | same => rfl
  | before => rw [hz.infix_cons_iff (c := σ.blank) σ.blank_mem_edges]
  | after edge =>
    have hc := Seam.mem_edges_of_after edge
    rw [hz.infix_cons_iff hc, hz.infix_cons_iff hc, hz.infix_cons_iff σ.blank_mem_edges]
  | cons c rest ih =>
    rw [List.infix_cons_iff, List.infix_cons_iff]
    exact or_congr ((rest.cons c).prefix_iff hz) ih

theorem suffix_iff (h : Inserted σ s t) (hz : Solid z) : z <:+ s ↔ z <:+ t := by
  induction h with
  | same => rfl
  | before => rw [hz.suffix_cons_iff (c := σ.blank) σ.blank_mem_edges]
  | after edge =>
    have hc := Seam.mem_edges_of_after edge
    rw [hz.suffix_cons_iff hc, hz.suffix_cons_iff hc, hz.suffix_cons_iff σ.blank_mem_edges]
  | cons c rest ih =>
    rw [List.suffix_cons_iff, List.suffix_cons_iff]
    refine or_congr ⟨?_, ?_⟩ ih
    · rintro rfl
      rw [rest.eq_of_solid (.inl hz.tail)]
    · rintro rfl
      rw [rest.eq_of_solid (.inr hz.tail)]

/-! Trimming -/

/-- A class with an edge in it holds the blank too, so both or neither are dropped. -/
theorem dropWhile {p : Char → Bool} (hp : ∀ c ∈ σ.edges, p c = true → p σ.blank = true)
    (h : Inserted σ s t) : Inserted σ (s.dropWhile p) (t.dropWhile p) := by
  induction h with
  | same => exact .same _
  | @before c edge s =>
    cases hb : p σ.blank with
    | true => simpa [List.dropWhile_cons_of_pos hb] using Inserted.same _
    | false =>
      cases hc : p c with
      | true =>
        rw [hp c (Seam.mem_edges_of_before edge) hc] at hb
        cases hb
      | false => simpa [hb, hc] using Inserted.before edge s
  | @after c edge s =>
    cases hc : p c with
    | true =>
      have hb := hp c (Seam.mem_edges_of_after edge) hc
      simpa [hc, hb] using Inserted.same _
    | false => simpa [hc] using Inserted.after edge s
  | cons c rest ih =>
    cases hc : p c with
    | true => simpa [hc] using ih
    | false => simpa [hc] using rest.cons c

theorem takeWhile_eq {p : Char → Bool} (hp : ∀ c ∈ σ.edges, p c = false) (h : Inserted σ s t) :
    s.takeWhile p = t.takeWhile p := by
  induction h with
  | same => rfl
  | before edge => simp [hp _ σ.blank_mem_edges, hp _ (Seam.mem_edges_of_before edge)]
  | after edge => simp [hp _ (Seam.mem_edges_of_after edge)]
  | cons c _ ih => rw [List.takeWhile_cons, List.takeWhile_cons, ih]

theorem trimStart (h : Inserted σ s t) : Inserted σ (trimStart s) (trimStart t) :=
  h.dropWhile fun _ _ _ => σ.isBlank_blank

theorem trimEnd (h : Inserted σ s t) : Inserted σ (trimEnd s) (trimEnd t) := by
  induction h with
  | same => exact .same _
  | @before c edge s =>
    by_cases hs : Text.trimEnd (c :: s) = []
    · rw [hs, trimEnd_cons_of_blank σ.isBlank_blank hs]
      exact .same _
    · rw [trimEnd_cons_of_ne_nil hs, trimEnd_cons_of_cons_ne_nil hs]
      exact .before edge _
  | @after c edge s =>
    by_cases hs : Text.trimEnd s = []
    · have hb : Text.trimEnd (σ.blank :: s) = Text.trimEnd s := by
        rw [trimEnd_cons_of_blank σ.isBlank_blank hs, hs]
      rw [trimEnd_cons_congr hb c]
      exact .same _
    · have hb := trimEnd_cons_of_ne_nil hs σ.blank
      rw [trimEnd_cons_of_ne_nil hs, trimEnd_cons_of_ne_nil (by rw [hb]; nofun), hb]
      exact .after edge _
  | @cons c s t rest ih =>
    by_cases hs : Text.trimEnd s = []
    · rw [trimEnd_cons_congr (hs.trans (ih.eq_nil_iff.mp hs).symm) c]
      exact .same _
    · rw [trimEnd_cons_of_ne_nil hs, trimEnd_cons_of_ne_nil (mt ih.eq_nil_iff.mpr hs)]
      exact ih.cons c

theorem trim (h : Inserted σ s t) : Inserted σ (trim s) (trim t) := h.trimStart.trimEnd

/-! Comments -/

theorem rel_refl (a : Option (List Char)) : Option.Rel (Inserted σ) a a := by
  cases a with
  | none => exact .none
  | some s => exact .some (.same s)

theorem opensLine_eq (h : Inserted σ s t) : opensLine s = opensLine t := by
  rw [opensLine, opensLine, Bool.eq_iff_iff, List.isPrefixOf_iff_prefix, List.isPrefixOf_iff_prefix]
  exact h.prefix_iff (by decide)

private theorem afterBlock? (h : Inserted σ s t) :
    Option.Rel (Inserted σ) (afterBlock? s) (afterBlock? t) := by
  have hskip {c : Char} (hc : c ∈ σ.edges) (s : List Char) :
      Interface.afterBlock? (c :: s) = Interface.afterBlock? s := by
    refine afterBlock?_cons fun _ he => ?_
    obtain rfl := (List.cons.inj he).1
    exact Seam.not_mem_edges (by decide) hc
  induction h with
  | same => exact rel_refl _
  | before =>
    rw [hskip σ.blank_mem_edges]
    exact rel_refl _
  | after edge =>
    have hc := Seam.mem_edges_of_after edge
    rw [hskip hc, hskip hc, hskip σ.blank_mem_edges]
    exact rel_refl _
  | @cons c s t rest ih =>
    rcases (rest.cons c).cons_cases (c := '*') (Seam.not_mem_edges (by decide)) with
      ⟨x, y, hx, hy, hxy⟩ | ⟨hs, ht⟩
    · obtain ⟨rfl, rfl⟩ := List.cons.inj hx
      obtain rfl := (List.cons.inj hy).2
      rcases hxy.cons_cases (c := '/') (Seam.not_mem_edges (by decide)) with
        ⟨u, v, rfl, rfl, huv⟩ | ⟨hs, ht⟩
      · exact .some huv
      · rw [afterBlock?_cons fun x he => hs x (List.cons.inj he).2,
          afterBlock?_cons fun y he => ht y (List.cons.inj he).2]
        exact ih
    · rw [afterBlock?_cons fun _ => hs _, afterBlock?_cons fun _ => ht _]
      exact ih

theorem frontBlock? (h : Inserted σ s t) :
    Option.Rel (Inserted σ) (frontBlock? s) (frontBlock? t) := by
  rcases h.cons_cases (c := '/') (Seam.not_mem_edges (by decide)) with
    ⟨x, y, rfl, rfl, hxy⟩ | ⟨hs, ht⟩
  · rcases hxy.cons_cases (c := '*') (Seam.not_mem_edges (by decide)) with
      ⟨u, v, rfl, rfl, huv⟩ | ⟨hs, ht⟩
    · exact huv.afterBlock?
    · rw [frontBlock?_of_ne fun x he => hs x (List.cons.inj he).2,
        frontBlock?_of_ne fun y he => ht y (List.cons.inj he).2]
      exact .none
  · rw [frontBlock?_of_ne fun _ => hs _, frontBlock?_of_ne fun _ => ht _]
    exact .none

/-- Block comments are the same on either side of the blank. -/
theorem withoutBlocks (h : Inserted σ s t) : Inserted σ (withoutBlocks s) (withoutBlocks t) := by
  induction hlen : s.length using Nat.strongRecOn generalizing s t with | _ len ih
  have hskip {c : Char} (hc : c ∈ σ.edges) (s : List Char) :
      Interface.withoutBlocks (c :: s) = c :: Interface.withoutBlocks s := by
    refine withoutBlocks_cons (frontBlock?_of_ne fun _ he => ?_)
    obtain rfl := (List.cons.inj he).1
    exact Seam.not_mem_edges (by decide) hc
  have hfront := h.frontBlock?
  generalize hs : Interface.frontBlock? s = a at hfront
  generalize ht : Interface.frontBlock? t = b at hfront
  cases hfront with
  | some hxy =>
    rw [withoutBlocks_of_frontBlock hs, withoutBlocks_of_frontBlock ht]
    exact ih _ (hlen ▸ frontBlock?_length hs) hxy rfl
  | none =>
    cases h with
    | same => exact .same _
    | before edge =>
      rw [hskip σ.blank_mem_edges, hskip (Seam.mem_edges_of_before edge)]
      exact .before edge _
    | after edge =>
      have hc := Seam.mem_edges_of_after edge
      rw [hskip hc, hskip hc, hskip σ.blank_mem_edges]
      exact .after edge _
    | cons c rest =>
      rw [withoutBlocks_cons hs, withoutBlocks_cons ht]
      exact (ih _ (by rw [← hlen]; simp) rest rfl).cons c

end Inserted
end MockServer.Interface
