import MockServer.Proofs.Random.Results

/-!
Results that some words lead to, word for word. Every number of a range has a word that is accepted
at once, so nothing in the range is out of reach.
-/
namespace MockServer.Random

open MockServer.Number

variable {α β : Type} {draw : Draw α} {next : α → Draw β} {v : α} {b : β}
variable {k range low high : Nat}

/-- Some words give the result and are all taken, and no word after them is looked at. -/
def Reaches (draw : Draw α) (v : α) : Prop := ∃ words, ∀ more, draw (words ++ more) = some (v, more)

theorem reaches_pure (v : α) : Reaches (pure v) v := ⟨[], fun _ => rfl⟩

theorem Reaches.bind (hd : Reaches draw v) (hn : Reaches (next v) b) :
    Reaches (draw >>= next) b := by
  obtain ⟨words, hd⟩ := hd
  obtain ⟨further, hn⟩ := hn
  refine ⟨words ++ further, fun more => ?_⟩
  simp only [Bind.bind, StateT.bind, List.append_assoc, hd, Option.bind_some]
  exact hn more

theorem Reaches.map (hd : Reaches draw v) (f : α → β) :
    Reaches (draw >>= fun v => pure (f v)) (f v) :=
  hd.bind (reaches_pure (f v))

private theorem reaches_word (w : UInt64) : Reaches word w := ⟨[w], fun _ => rfl⟩

/-- The zone leaves room for as many low halves as the range has numbers. -/
theorem lt_of_le_zone {n : Nat} (h : n < range) : n ≤ zone range := by
  have hpow : 1 ≤ Nat.pow 2 (63 - Nat.log2 range) := Nat.pow_pos (by decide)
  have hrange := Nat.mul_le_mul_left range hpow
  unfold zone
  omega

/-- The first multiple of the range from `k` words on lies in the part of `k`, with a low half below
the range. -/
theorem exists_multiple (hk : k < range) (hr : range ≤ wordCount) :
    ∃ m, m < wordCount ∧ ∃ rest < range, m * range = k * wordCount + rest := by
  have hpos : 0 < range := Nat.zero_lt_of_lt hk
  obtain ⟨top, htop⟩ : ∃ top, top = k * wordCount + (range - 1) := ⟨_, rfl⟩
  have hdiv := Nat.div_add_mod' top range
  have hmod := Nat.mod_lt top hpos
  refine ⟨top / range, ?_, range - 1 - top % range, by omega, by omega⟩
  rw [Nat.div_lt_iff_lt_mul hpos]
  calc top < k * wordCount + wordCount := by omega
    _ = (k + 1) * wordCount := by rw [Nat.add_mul, Nat.one_mul]
    _ ≤ range * wordCount := Nat.mul_le_mul_right wordCount hk
    _ = wordCount * range := Nat.mul_comm _ _

/-- Every number of a range has a word that is accepted at once. -/
theorem reaches_below (hk : k < range) (hr : range ≤ wordCount) : Reaches (below range) k := by
  obtain ⟨m, hm, rest, hrest, hproduct⟩ := exists_multiple hk hr
  have hword : (UInt64.ofNat m).toNat = m := UInt64.toNat_ofNat_of_lt' hm
  have hcount : 0 < wordCount := by decide
  refine ⟨[UInt64.ofNat m], fun more => ?_⟩
  have hlow : (k * wordCount + rest) % wordCount = rest := by
    rw [Nat.mul_comm, Nat.mul_add_mod, Nat.mod_eq_of_lt (by omega)]
  have hhigh : (k * wordCount + rest) / wordCount = k := by
    rw [Nat.mul_comm, Nat.mul_add_div hcount, Nat.div_eq_of_lt (by omega), Nat.add_zero]
  rw [List.singleton_append, below, scaled, hword, hproduct, hlow, hhigh,
    if_pos (lt_of_le_zone hrest)]

theorem reaches_between (hlow : low ≤ k) (hhigh : k ≤ high) (hr : high - low < wordCount) :
    Reaches (between low high) k := by
  have hdiff : Reaches (below (high - low + 1)) (k - low) := reaches_below (by omega) (by omega)
  have hsum : k = low + (k - low) := by omega
  rw [hsum]
  exact hdiff.map (low + ·)

/-- Both results of a chance are reached, unless one of them has no word at all. -/
theorem reaches_chance {p : Binary64} (hpos : 1 ≤ p.scaledFloor 64)
    (hlt : p.scaledFloor 64 < wordCount) (hone : p ≠ Binary64.one) (b : Bool) :
    Reaches (chance p) b := by
  rw [chance, if_neg hone]
  have hword {w : UInt64} (hw : decide (w.toNat < p.scaledFloor 64) = b) :
      Reaches (word >>= fun w => pure (decide (w.toNat < p.scaledFloor 64))) b :=
    hw ▸ (reaches_word w).map _
  cases b with
  | true => exact hword (w := 0) (decide_eq_true hpos)
  | false =>
    refine hword (w := UInt64.ofNat 0xFFFFFFFFFFFFFFFF) (decide_eq_false ?_)
    have hlast : (UInt64.ofNat 0xFFFFFFFFFFFFFFFF).toNat = 0xFFFFFFFFFFFFFFFF := rfl
    rw [hlast]
    unfold wordCount at hlt
    omega

private theorem reaches_timesAfter {vs : List α} (h : ∀ v ∈ vs, Reaches draw v) (done : List α) :
    Reaches (timesAfter draw done vs.length) (done.reverse ++ vs) := by
  induction vs generalizing done with
  | nil =>
    rw [List.append_nil]
    exact reaches_pure _
  | cons v vs ih =>
    rw [List.forall_mem_cons] at h
    rw [List.length_cons, timesAfter]
    refine h.1.bind ?_
    have hlater := ih h.2 (v :: done)
    rwa [List.reverse_cons, List.append_assoc, List.singleton_append] at hlater

theorem reaches_times {vs : List α} (h : ∀ v ∈ vs, Reaches draw v) :
    Reaches (times vs.length draw) vs :=
  reaches_timesAfter h []

end MockServer.Random
