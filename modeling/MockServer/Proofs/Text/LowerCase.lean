import MockServer.Text.Search

/-!
The lower case of a whole text, as Unicode has it: a character may become several, and a capital
sigma is written by what stands around it. A search for ASCII letters sees none of this: they occur
in the full lower case of a text exactly when they occur in the folded text.
-/
namespace MockServer.Text

/-- Some characters, none of them ASCII. -/
def IsForeign (u : List Char) : Prop := u ≠ [] ∧ ∀ c ∈ u, 128 ≤ c.toNat

/-- What lower-casing takes from the tables of Unicode: the lower case of one character, and the
two classes that decide where a word ends. In every version of the tables ASCII has its own lower
case, and of the other characters only U+0130 and U+212A have an ASCII letter in theirs. -/
structure CaseTables where
  lower : Char → List Char
  isCased : Char → Bool
  isCaseIgnorable : Char → Bool
  lower_ascii : ∀ c : Char, c.toNat < 128 → lower c = [c.toLower]
  lower_dotted : lower '\u0130' = ['i', '\u0307']
  lower_kelvin : lower '\u212A' = ['k']
  lower_foreign : ∀ c : Char, 128 ≤ c.toNat → c ≠ '\u0130' → c ≠ '\u212A' → IsForeign (lower c)

variable {c : Char} {s t u k : List Char}

private theorem toLower_of_not_ascii (h : 128 ≤ c.toNat) : c.toLower = c := by
  have hz : ¬c.val ≤ 'Z'.val := by
    rw [UInt32.le_iff_toNat_le]
    exact Nat.not_le.mpr (Nat.lt_of_lt_of_le (by decide) h)
  exact dif_neg fun hc => hz hc.2

/-- What is checked code by code holds of every ASCII character. -/
theorem forall_ascii {P : Char → Prop} (hall : ∀ n < 128, P (Char.ofNat n)) (h : c.toNat < 128) :
    P c := by
  have hc := hall c.toNat h
  rwa [Char.ofNat_toNat] at hc

private theorem foldCase_of_ascii (h : c.toNat < 128) : foldCase c = [c.toLower] :=
  forall_ascii (P := fun c => foldCase c = [c.toLower]) (by decide) h

private theorem foldCase_of_not_ascii (h : 128 ≤ c.toNat) (hdotted : c ≠ '\u0130')
    (hkelvin : c ≠ '\u212A') : foldCase c = [c] := by
  rw [foldCase, if_neg (by simpa using hdotted), if_neg (by simpa using hkelvin),
    toLower_of_not_ascii h]

private theorem isForeign_singleton (h : 128 ≤ c.toNat) : IsForeign [c] :=
  ⟨List.cons_ne_nil c [], List.forall_mem_singleton.mpr h⟩

/-- The case of ASCII letters does not show in a folded text. -/
theorem foldText_map_toLower (s : List Char) : foldText (s.map Char.toLower) = foldText s := by
  have hfold (c : Char) : foldCase c.toLower = foldCase c := by
    by_cases h : c.toNat < 128
    · exact forall_ascii (P := fun c => foldCase c.toLower = foldCase c) (by decide) h
    · rw [toLower_of_not_ascii (Nat.le_of_not_lt h)]
  rw [foldText, List.flatMap_map]
  exact congrArg s.flatMap (funext hfold)

namespace CaseTables

/-- Whether the next character that counts has a case. -/
def meetsCased (T : CaseTables) (s : List Char) : Bool :=
  (s.dropWhile T.isCaseIgnorable).head?.any T.isCased

/-- The lower case of a character between a text before it, read backwards, and a text after it. A
capital sigma at the end of a word becomes a final sigma. -/
def lowerAt (T : CaseTables) (before : List Char) (c : Char) (after : List Char) : List Char :=
  if c = 'Σ' then [if T.meetsCased before && !T.meetsCased after then 'ς' else 'σ']
  else T.lower c

def lowerFrom (T : CaseTables) (before : List Char) : List Char → List Char
  | [] => []
  | c :: s => T.lowerAt before c s ++ T.lowerFrom (c :: before) s

/-- The lower case of a whole text. -/
def lowerText (T : CaseTables) (s : List Char) : List Char := T.lowerFrom [] s

/-- The tables for ASCII and the Greek capitals without accents. -/
def greek : CaseTables where
  lower c :=
    if 0x391 ≤ c.toNat ∧ c.toNat ≤ 0x3A9 ∧ c.toNat ≠ 0x3A2 then [Char.ofNat (c.toNat + 0x20)]
    else foldCase c
  isCased c := c.isAlpha || (0x391 ≤ c.toNat && c.toNat ≤ 0x3C9)
  isCaseIgnorable c := [0x27, 0x2E, 0x3A, 0x5E, 0x60].contains c.toNat
  lower_ascii c h := by
    rw [if_neg (by omega), foldCase_of_ascii h]
  lower_dotted := by decide
  lower_kelvin := by decide
  lower_foreign c h hdotted hkelvin := by
    split
    next hc =>
      have hsmall : ∀ n < 25, 128 ≤ (Char.ofNat (0x391 + n + 0x20)).toNat := by decide
      obtain ⟨n, hn⟩ := Nat.exists_eq_add_of_le hc.1
      rw [hn]
      exact isForeign_singleton (hsmall n (by omega))
    next =>
      rw [foldCase_of_not_ascii h hdotted hkelvin]
      exact isForeign_singleton h

example : greek.lowerText "ΟΔΟΣ 'ΣΑΣ' ΣIDΣ".toList = "οδος 'σας' σidς".toList := by decide

/-- The lower case of a character is its folded form, or both are foreign. -/
theorem lowerAt_eq_foldCase_or (T : CaseTables) (before : List Char) (c : Char)
    (after : List Char) :
    T.lowerAt before c after = foldCase c ∨
      IsForeign (T.lowerAt before c after) ∧ IsForeign (foldCase c) := by
  by_cases hsigma : c = 'Σ'
  · subst hsigma
    rw [lowerAt, if_pos rfl, foldCase_of_not_ascii (by decide) (by decide) (by decide)]
    refine .inr ⟨?_, isForeign_singleton (by decide)⟩
    split
    · exact isForeign_singleton (by decide)
    · exact isForeign_singleton (by decide)
  rw [lowerAt, if_neg hsigma]
  by_cases hascii : c.toNat < 128
  · exact .inl ((T.lower_ascii c hascii).trans (foldCase_of_ascii hascii).symm)
  have hc : 128 ≤ c.toNat := Nat.le_of_not_lt hascii
  by_cases hdotted : c = '\u0130'
  · exact .inl (hdotted ▸ T.lower_dotted)
  by_cases hkelvin : c = '\u212A'
  · exact .inl (hkelvin ▸ T.lower_kelvin)
  -- all other characters stay outside ASCII, however many they become
  rw [foldCase_of_not_ascii hc hdotted hkelvin]
  exact .inr ⟨T.lower_foreign c hc hdotted hkelvin, isForeign_singleton hc⟩

end CaseTables

/-- Two texts that differ in foreign characters only: where one has some, the other has some too,
perhaps others and more or fewer. -/
inductive AlikeInAscii : List Char → List Char → Prop where
  | nil : AlikeInAscii [] []
  | cons {s t : List Char} (c : Char) (later : AlikeInAscii s t) : AlikeInAscii (c :: s) (c :: t)
  | foreign {s t u v : List Char} (hu : IsForeign u) (hv : IsForeign v)
      (later : AlikeInAscii s t) : AlikeInAscii (u ++ s) (v ++ t)

private theorem AlikeInAscii.append_left (h : AlikeInAscii s t) (u : List Char) :
    AlikeInAscii (u ++ s) (u ++ t) := by
  induction u with
  | nil => exact h
  | cons c u ih => exact .cons c ih

/-- The full lower case of a text and the folded text have the same ASCII characters. -/
theorem CaseTables.alike_lowerFrom (T : CaseTables) (before s : List Char) :
    AlikeInAscii (T.lowerFrom before s) (foldText s) := by
  induction s generalizing before with
  | nil => exact .nil
  | cons c s ih =>
    rw [lowerFrom, foldText, List.flatMap_cons]
    rcases T.lowerAt_eq_foldCase_or before c s with h | ⟨hl, hf⟩
    · rw [h]
      exact (ih (c :: before)).append_left (foldCase c)
    · exact .foreign hl hf (ih (c :: before))

/-- An ASCII text does not start inside foreign characters. -/
theorem IsForeign.not_prefix (hu : IsForeign u) (hc : c.toNat < 128) : ¬c :: k <+: u ++ s := by
  obtain ⟨hne, hu⟩ := hu
  obtain ⟨d, u, rfl⟩ := List.exists_cons_of_ne_nil hne
  intro h
  rw [List.cons_append, List.cons_prefix_cons] at h
  have hd : 128 ≤ c.toNat := h.1 ▸ hu d List.mem_cons_self
  exact Nat.not_lt.mpr hd hc

private theorem AlikeInAscii.prefix_iff (h : AlikeInAscii s t) (hk : ∀ c ∈ k, c.toNat < 128) :
    k <+: s ↔ k <+: t := by
  induction h generalizing k with
  | nil => exact Iff.rfl
  | cons c _ ih =>
    cases k with
    | nil => simp
    | cons d k =>
      rw [List.cons_prefix_cons, List.cons_prefix_cons,
        ih fun c hc => hk c (List.mem_cons_of_mem d hc)]
  | foreign hu hv _ _ =>
    cases k with
    | nil => simp
    | cons d k =>
      -- neither text starts with an ASCII character: foreign ones never vanish
      have hd := hk d List.mem_cons_self
      exact iff_of_false (hu.not_prefix hd) (hv.not_prefix hd)

/-- An ASCII text that occurs behind foreign characters occurs in what follows them. -/
theorem infix_append_iff_of_not_ascii (hu : ∀ c ∈ u, 128 ≤ c.toNat) (hc : c.toNat < 128) :
    c :: k <:+: u ++ s ↔ c :: k <:+: s := by
  induction u with
  | nil => exact Iff.rfl
  | cons d u ih =>
    have hforeign : IsForeign (d :: u) := ⟨List.cons_ne_nil d u, hu⟩
    have hstart : ¬c :: k <+: d :: (u ++ s) := hforeign.not_prefix hc
    rw [List.cons_append, List.infix_cons_iff, or_iff_right hstart,
      ih fun e he => hu e (List.mem_cons_of_mem d he)]

/-- Texts that are alike in ASCII have the same ASCII parts. -/
theorem AlikeInAscii.infix_iff (h : AlikeInAscii s t) (hk : ∀ c ∈ k, c.toNat < 128) :
    k <:+: s ↔ k <:+: t := by
  induction h with
  | nil => exact Iff.rfl
  | cons c later ih =>
    rw [List.infix_cons_iff, List.infix_cons_iff, ih, (AlikeInAscii.cons c later).prefix_iff hk]
  | foreign hu hv _ ih =>
    cases k with
    | nil => simp
    | cons d k =>
      have hd := hk d List.mem_cons_self
      rw [infix_append_iff_of_not_ascii hu.2 hd, infix_append_iff_of_not_ascii hv.2 hd, ih]

/-- A search for ASCII text in the full lower case finds what it finds in the folded text. -/
theorem CaseTables.contains_lowerText (T : CaseTables) (hk : ∀ c ∈ k, c.toNat < 128)
    (s : List Char) : contains k (T.lowerText s) = contains k (foldText s) := by
  rw [Bool.eq_iff_iff, contains_iff, contains_iff]
  exact (T.alike_lowerFrom [] s).infix_iff hk

end MockServer.Text
