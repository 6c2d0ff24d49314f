import MockServer.Random.Uuid

/-!
What the results of a computation can be, whatever words it draws.
-/
namespace MockServer.Random

variable {α β : Type} {draw : Draw α} {next : α → Draw β} {v a : α} {b : β} {n m low high : Nat}

/-- Some words give this result. -/
def IsResult (draw : Draw α) (v : α) : Prop := ∃ words rest, draw words = some (v, rest)

theorem isResult_pure (h : IsResult (pure a) v) : v = a := by
  obtain ⟨words, rest, h⟩ := h
  cases h
  rfl

theorem isResult_bind (h : IsResult (draw >>= next) b) :
    ∃ v, IsResult draw v ∧ IsResult (next v) b := by
  obtain ⟨words, rest, h⟩ := h
  simp only [bind, StateT.bind, Option.bind_eq_some_iff] at h
  obtain ⟨⟨v, later⟩, hv, hb⟩ := h
  exact ⟨v, ⟨words, later, hv⟩, later, rest, hb⟩

theorem isResult_return {f : α → β} (h : IsResult (draw >>= fun v => pure (f v)) b) :
    ∃ v, IsResult draw v ∧ b = f v := by
  obtain ⟨v, hv, hb⟩ := isResult_bind h
  exact ⟨v, hv, isResult_pure hb⟩

theorem lt_of_isResult_below (hn : 0 < n) (h : IsResult (below n) m) : m < n := by
  obtain ⟨words, rest, h⟩ := h
  exact scaled_lt hn h

theorem bounds_of_isResult_between (hl : low ≤ high) (h : IsResult (between low high) n) :
    low ≤ n ∧ n ≤ high := by
  obtain ⟨k, hk, rfl⟩ := isResult_return h
  have := lt_of_isResult_below (Nat.succ_pos _) hk
  omega

private theorem isResult_timesAfter {done l : List α} (h : IsResult (timesAfter draw done n) l) :
    ∃ later : List α, l = done.reverse ++ later ∧ later.length = n ∧
      ∀ v ∈ later, IsResult draw v := by
  induction n generalizing done with
  | zero =>
    rw [isResult_pure h]
    exact ⟨[], by simp⟩
  | succ n ih =>
    rw [timesAfter] at h
    obtain ⟨v, hv, hl⟩ := isResult_bind h
    obtain ⟨later, hl, hn, hlater⟩ := ih hl
    refine ⟨v :: later, ?_, by simp [hn], ?_⟩
    · rw [hl, List.reverse_cons, List.append_assoc, List.singleton_append]
    · intro w hw
      rcases List.mem_cons.mp hw with rfl | hw
      · exact hv
      · exact hlater w hw

theorem isResult_times {l : List α} (h : IsResult (times n draw) l) :
    l.length = n ∧ ∀ v ∈ l, IsResult draw v := by
  obtain ⟨later, hl, h⟩ := isResult_timesAfter h
  rw [List.reverse_nil, List.nil_append] at hl
  rw [hl]
  exact h

end MockServer.Random

namespace MockServer.Uuid

open MockServer.Random

/-- A lower-case hexadecimal digit. -/
def IsHexDigit (c : Char) : Prop := c ∈ "0123456789abcdef".toList

/-- Groups of 8, 4, 4, 4 and 12 hexadecimal digits with hyphens between them, where the third group
starts with the version, 4, and the fourth with a digit whose two top bits are 1 and 0. -/
def IsVersion4 (text : List Char) : Prop :=
  ∃ a b c d e : List Char, ∃ v : Char,
    text = a ++ '-' :: (b ++ '-' :: '4' :: (c ++ '-' :: v :: (d ++ '-' :: e))) ∧
    a.length = 8 ∧ b.length = 4 ∧ c.length = 3 ∧ d.length = 3 ∧ e.length = 12 ∧
    v ∈ ['8', '9', 'a', 'b'] ∧ ∀ x ∈ a ++ b ++ c ++ d ++ e, IsHexDigit x

private theorem isHexDigit_hexChar : ∀ n < 16, IsHexDigit (Number.hexChar n) := by
  unfold IsHexDigit
  decide

private theorem isHexDigit_of_mem_byteText {b : UInt8} {c : Char} (h : c ∈ byteText b) :
    IsHexDigit c := by
  have hb := b.toNat_lt
  simp only [byteText, List.mem_cons, List.not_mem_nil, or_false] at h
  rcases h with rfl | rfl
  · exact isHexDigit_hexChar _ (by omega)
  · exact isHexDigit_hexChar _ (Nat.mod_lt _ (by decide))

private theorem hexChar_version (b : UInt8) :
    Number.hexChar ((b % 16 + 0x40).toNat / 16) = '4' := by
  have : (b % 16 + 0x40).toNat / 16 = 4 := by
    rw [UInt8.toNat_add, UInt8.toNat_mod]
    simp
    omega
  rw [this]
  rfl

private theorem hexChar_variant (b : UInt8) :
    Number.hexChar ((b % 64 + 0x80).toNat / 16) ∈ ['8', '9', 'a', 'b'] := by
  have h : 8 ≤ (b % 64 + 0x80).toNat / 16 ∧ (b % 64 + 0x80).toNat / 16 < 12 := by
    rw [UInt8.toNat_add, UInt8.toNat_mod]
    simp
    omega
  have : ∀ n < 12, 8 ≤ n → Number.hexChar n ∈ ['8', '9', 'a', 'b'] := by decide
  exact this _ h.2 h.1

private theorem isVersion4_ofRandom {bytes : List UInt8} (h : bytes.length = 16) :
    IsVersion4 (ofRandom bytes).text := by
  match bytes, h with
  | [b₀, b₁, b₂, b₃, b₄, b₅, b₆, b₇, b₈, b₉, b₁₀, b₁₁, b₁₂, b₁₃, b₁₄, b₁₅], _ =>
    let version := b₆ % 16 + 0x40
    let variant := b₈ % 64 + 0x80
    have hv : version.toNat % 16 < 16 := Nat.mod_lt _ (by decide)
    have hr : variant.toNat % 16 < 16 := Nat.mod_lt _ (by decide)
    refine ⟨[b₀, b₁, b₂, b₃].flatMap byteText, [b₄, b₅].flatMap byteText,
      Number.hexChar (version.toNat % 16) :: byteText b₇,
      Number.hexChar (variant.toNat % 16) :: byteText b₉,
      [b₁₀, b₁₁, b₁₂, b₁₃, b₁₄, b₁₅].flatMap byteText,
      Number.hexChar (variant.toNat / 16), ?_, rfl, rfl, rfl, rfl, rfl, hexChar_variant b₈, ?_⟩
    · rw [← hexChar_version b₆]
      rfl
    · intro x hx
      simp only [List.mem_append, List.mem_cons, List.mem_flatMap] at hx
      rcases hx with (((⟨b, _, hx⟩ | ⟨b, _, hx⟩) | rfl | hx) | rfl | hx) | ⟨b, _, hx⟩
      · exact isHexDigit_of_mem_byteText hx
      · exact isHexDigit_of_mem_byteText hx
      · exact isHexDigit_hexChar _ hv
      · exact isHexDigit_of_mem_byteText hx
      · exact isHexDigit_hexChar _ hr
      · exact isHexDigit_of_mem_byteText hx
      · exact isHexDigit_of_mem_byteText hx

theorem isVersion4_of_isResult {u : Uuid} (h : IsResult draw u) : IsVersion4 u.text := by
  obtain ⟨words, hw, rfl⟩ := isResult_return h
  exact isVersion4_ofRandom (by rw [List.length_map, (isResult_times hw).1])

end MockServer.Uuid
