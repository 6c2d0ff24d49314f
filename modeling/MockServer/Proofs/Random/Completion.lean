import MockServer.Mock.Sample
import MockServer.Proofs.Random.Results

/-!
Computations that never get stuck: whatever words they have drawn, with some more they come to an
end, and what they leave over they have not looked at.
-/
namespace MockServer.Random

open MockServer.Number

variable {α β : Type} {draw : Draw α} {next : α → Draw β} {n : Nat}

/-- A computation reads its words in order, and there are always words with which it ends. -/
structure Completes (draw : Draw α) : Prop where
  unread : ∀ {words v rest}, draw words = some (v, rest) →
    ∀ more, draw (words ++ more) = some (v, rest ++ more)
  ends : ∀ words, ∃ more v rest, draw (words ++ more) = some (v, rest)

theorem completes_pure (a : α) : Completes (pure a : Draw α) := by
  constructor
  · intro words v rest h more
    cases h
    rfl
  · exact fun words => ⟨[], a, words ++ [], rfl⟩

theorem Completes.bind (hd : Completes draw) (hn : ∀ v, Completes (next v)) :
    Completes (draw >>= next) := by
  have happly {words later : List UInt64} {v : α} (h : draw words = some (v, later)) :
      (draw >>= next) words = next v later := by
    simp only [Bind.bind, StateT.bind, h, Option.bind_some]
  constructor
  · intro words b rest h more
    simp only [Bind.bind, StateT.bind, Option.bind_eq_some_iff] at h
    obtain ⟨⟨v, later⟩, hv, hb⟩ := h
    rw [happly (hd.unread hv more)]
    exact (hn v).unread hb more
  · intro words
    obtain ⟨more, v, later, hv⟩ := hd.ends words
    obtain ⟨further, b, rest, hb⟩ := (hn v).ends later
    refine ⟨more ++ further, b, rest, ?_⟩
    rw [← List.append_assoc, happly (hd.unread hv further)]
    exact hb

theorem Completes.map (hd : Completes draw) (f : α → β) :
    Completes (draw >>= fun v => pure (f v)) :=
  hd.bind fun v => completes_pure (f v)

private theorem completes_word : Completes word := by
  constructor
  · intro words v rest h more
    cases words with
    | nil => cases h
    | cons w words =>
      cases h
      rfl
  · intro words
    cases words with
    | nil => exact ⟨[0], 0, [], rfl⟩
    | cons w words => exact ⟨[], w, words ++ [], rfl⟩

/-- A word that is not accepted is passed over. The word zero always is accepted. -/
theorem completes_below (range : Nat) : Completes (below range) := by
  constructor
  · intro words
    induction words with
    | nil =>
      intro v rest h
      cases h
    | cons w words ih =>
      intro v rest h more
      rw [below, scaled] at h
      rw [below, List.cons_append, scaled]
      split at h
      next hw =>
        cases h
        rw [if_pos hw]
      next hw =>
        rw [if_neg hw]
        exact ih h more
  · intro words
    induction words with
    | nil => exact ⟨[0], 0, [], by simp [below, scaled]⟩
    | cons w words ih =>
      rw [below] at ih ⊢
      by_cases hw : w.toNat * range % wordCount ≤ zone range
      · exact ⟨[], w.toNat * range / wordCount, words, by simp [scaled, hw]⟩
      · obtain ⟨more, v, rest, h⟩ := ih
        refine ⟨more, v, rest, ?_⟩
        rw [List.cons_append, scaled, if_neg hw]
        exact h

theorem completes_between (low high : Nat) : Completes (between low high) :=
  (completes_below _).map _

theorem completes_chance (p : Binary64) : Completes (chance p) := by
  unfold chance
  split
  · exact completes_pure true
  · exact completes_word.map _

theorem completes_topBits (bits : Nat) : Completes (topBits bits) := completes_word.map _

theorem completes_pick (bits : Nat) (first : α) (others : List α) :
    Completes (pick bits first others) :=
  (completes_topBits bits).map _

private theorem completes_timesAfter (hd : Completes draw) (done : List α) :
    Completes (timesAfter draw done n) := by
  induction n generalizing done with
  | zero => exact completes_pure _
  | succ n ih => exact hd.bind fun v => ih (v :: done)

theorem completes_times (hd : Completes draw) : Completes (times n draw) :=
  completes_timesAfter hd []

end MockServer.Random

namespace MockServer.Uuid

theorem completes_draw : Random.Completes draw :=
  (Random.completes_times Random.completes_word).map _

end MockServer.Uuid
