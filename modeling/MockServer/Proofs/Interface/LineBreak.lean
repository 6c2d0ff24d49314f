import MockServer.Proofs.Interface.InsertionReading

/-!
One newline more in an object literal, right after an opening brace or a separator or right before a
closing brace. No word is torn by it, so words, comments and declarations are found as before.
-/
namespace MockServer.Interface

open MockServer.Text

/-- The places at the edges of members. -/
def lineSeam : Seam where
  blank := '\n'
  before := ['\x7d']
  after := ['\x7b', ';', ',']
  isBlank_blank := by decide
  before_loose := by decide
  after_loose := by decide

/-- A text and the same text, itself or with one newline more at the edge of a member. -/
abbrev Broken : List Char → List Char → Prop := Inserted lineSeam

namespace Broken

variable {s t : List Char}

private theorem of_suffix {u : List Char} (h : Broken s t) (hu : u <:+ t) :
    ∃ v, v <:+ s ∧ (Broken v u ∨ u = '\n' :: v) := by
  induction h with
  | same => exact ⟨u, hu, .inl (.same u)⟩
  | before _ s =>
    rcases List.suffix_cons_iff.mp hu with rfl | hu
    · exact ⟨_, List.suffix_refl _, .inr rfl⟩
    · exact ⟨u, hu, .inl (.same u)⟩
  | @after c edge s =>
    rcases List.suffix_cons_iff.mp hu with rfl | hu
    · exact ⟨_, List.suffix_refl _, .inl (.after edge s)⟩
    rcases List.suffix_cons_iff.mp hu with rfl | hu
    · exact ⟨s, List.suffix_cons c s, .inr rfl⟩
    · exact ⟨u, hu.trans (List.suffix_cons c s), .inl (.same u)⟩
  | @cons c s t rest ih =>
    rcases List.suffix_cons_iff.mp hu with rfl | hu
    · exact ⟨_, List.suffix_refl _, .inl (rest.cons c)⟩
    · obtain ⟨v, hv, h⟩ := ih hu
      exact ⟨v, hv.trans (List.suffix_cons c s), h⟩

/-- No comment opens or closes at a line break. -/
theorem uncommented (h : Broken s t) (hs : Uncommented s) : Uncommented t := by
  intro u hu
  obtain ⟨v, hv, h | rfl⟩ := h.of_suffix hu
  · obtain ⟨hl, hb⟩ := hs v hv
    have hfront := h.frontBlock?
    rw [hb] at hfront
    refine ⟨h.opensLine_eq ▸ hl, ?_⟩
    generalize frontBlock? u = b at hfront ⊢
    cases hfront
    rfl
  · exact ⟨rfl, rfl⟩

end Broken
end MockServer.Interface
