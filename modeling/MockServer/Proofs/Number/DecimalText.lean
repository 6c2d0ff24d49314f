import MockServer.Number.DigitsLemmas
import MockServer.Proofs.Json.Scalar
import MockServer.Proofs.Text.Identifier

/-!
Decimal texts: the text of an integer reads as the integer, also with blanks around it.
-/
namespace MockServer.Number

open MockServer.Text

private theorem digitsOf_ne_nil (n : Nat) : digitsOf 10 n ≠ [] := by
  obtain ⟨d, rest, heq, -⟩ := Json.exists_digitsBefore [] n
  rw [digitsOf, heq]
  exact List.cons_ne_nil _ _

private theorem lt_of_mem_digitsOf {n d : Nat} (h : d ∈ digitsOf 10 n) : d < 10 := by
  obtain ⟨first, rest, heq, hfirst, hrest, -⟩ := Json.exists_digitsBefore [] n
  rw [digitsOf, heq, List.append_nil] at h
  rcases List.mem_cons.mp h with rfl | h
  · exact hfirst
  · exact hrest d h

private theorem natText_ne_nil (n : Nat) : natText n ≠ [] := by
  rw [natText, Ne, List.map_eq_nil_iff]
  exact digitsOf_ne_nil n

/-- What holds of all ten digits holds of every character of a decimal text. -/
theorem forall_mem_natText {p : Char → Prop} (hp : ∀ d < 10, p (digitChar d)) (n : Nat) :
    ∀ c ∈ natText n, p c := by
  intro c hc
  obtain ⟨d, hd, rfl⟩ := List.mem_map.mp hc
  exact hp d (lt_of_mem_digitsOf hd)

private theorem mapM_digit? {digits : List Nat} (h : ∀ d ∈ digits, d < 10) :
    (digits.map digitChar).mapM digit? = some digits := by
  induction digits with
  | nil => rfl
  | cons d digits ih =>
    rw [List.forall_mem_cons] at h
    rw [List.map_cons, List.mapM_cons, Json.digit?_digitChar h.1, ih h.2]
    rfl

private theorem nat?_natText (n : Nat) : nat? (natText n) = some n := by
  have hne : (natText n).isEmpty = false := List.isEmpty_eq_false_iff.mpr (natText_ne_nil n)
  rw [nat?, hne, if_neg Bool.false_ne_true, natText,
    mapM_digit? fun _ => lt_of_mem_digitsOf, Option.map_some, ofDigits_digitsOf (by decide)]

private theorem int?_intText (n : Int) : int? (intText n) = some n := by
  unfold intText
  split
  next hn =>
    have hneg : -(n.natAbs : Int) = n := by omega
    rw [int?, nat?_natText]
    exact congrArg some hneg
  next hn =>
    have hsigns : ∀ c ∈ natText n.natAbs, c ≠ '-' ∧ c ≠ '+' :=
      forall_mem_natText (by decide) n.natAbs
    have hunsigned : int? (natText n.natAbs) = (nat? (natText n.natAbs)).map Int.ofNat := by
      generalize natText n.natAbs = s at hsigns
      unfold int? signedNat?
      split
      next => exact absurd rfl (hsigns '-' List.mem_cons_self).1
      next =>
        split
        next => exact absurd rfl (hsigns '+' List.mem_cons_self).2
        next => rfl
    rw [hunsigned, nat?_natText, Option.map_some]
    exact congrArg some (Int.natAbs_of_nonneg (Int.not_lt.mp hn))

theorem isTight_intText (n : Int) : IsTight (intText n) := by
  have hnat (m : Nat) : IsTight (natText m) :=
    IsIdentifier.isTight ⟨natText_ne_nil m, forall_mem_natText (by decide) m⟩
  have hminus : IsTight ['-'] := ⟨⟨'-', [], rfl, by decide⟩, [], '-', rfl, by decide⟩
  unfold intText
  split
  · exact hminus.append [] (hnat n.natAbs)
  · exact hnat n.natAbs

/-- Integers of 64 bits with sign are read, and no other ones. -/
theorem int64?_intText (n : Int) : int64? (intText n) =
    if -0x8000000000000000 ≤ n ∧ n < 0x8000000000000000 then some n else none := by
  rw [int64?, int?_intText, Option.filter_some]
  simp only [decide_eq_true_eq]

theorem trim_intText {before after : List Char} (hbefore : ∀ c ∈ before, isBlank c = true)
    (hafter : ∀ c ∈ after, isBlank c = true) (n : Int) :
    trim (before ++ intText n ++ after) = intText n := by
  rw [trim_append_blanks hafter, trim_blanks_append hbefore, (isTight_intText n).trim_eq]

/-! Filled up with zeros -/

private theorem length_digitsBefore_le {width n : Nat} (hwidth : 0 < width) (h : n < 10 ^ width)
    (later : List Nat) : (digitsBefore 10 later n).length ≤ width + later.length := by
  fun_induction digitsBefore 10 later n generalizing width with
  | case1 => contradiction
  | case2 later n => rw [List.length_cons]; omega
  | case3 later n _ hn ih =>
    obtain ⟨width, rfl⟩ := Nat.exists_eq_add_one_of_ne_zero (Nat.ne_of_gt hwidth)
    have hmore : width ≠ 0 := by
      rintro rfl
      exact hn h
    have hrest := ih (Nat.pos_of_ne_zero hmore) (Nat.div_lt_of_lt_mul (by rwa [← Nat.pow_succ']))
    rw [List.length_cons] at hrest
    omega

private theorem ofDigits_replicate_zero (n : Nat) (digits : List Nat) :
    ofDigits 10 (List.replicate n 0 ++ digits) = ofDigits 10 digits := by
  induction n with
  | zero => rfl
  | succ n ih => rw [← ih, List.replicate_succ, List.cons_append, ofDigits, List.foldl_cons]; rfl

/-- A number that fits a width is written in exactly so many digits. -/
theorem exists_paddedText {width n : Nat} (hwidth : 0 < width) (h : n < 10 ^ width) :
    ∃ digits, paddedText width n = digits.map digitChar ∧ digits.length = width ∧
      (∀ d ∈ digits, d < 10) ∧ ofDigits 10 digits = n := by
  have hlength := length_digitsBefore_le hwidth h []
  rw [List.length_nil, Nat.add_zero, ← digitsOf] at hlength
  refine ⟨List.replicate (width - (digitsOf 10 n).length) 0 ++ digitsOf 10 n, ?_, ?_, ?_, ?_⟩
  · rw [paddedText, natText, List.length_map, List.map_append, List.map_replicate]
    rfl
  · rw [List.length_append, List.length_replicate, Nat.sub_add_cancel hlength]
  · intro d hd
    rcases List.mem_append.mp hd with hd | hd
    · rw [List.eq_of_mem_replicate hd]
      decide
    · exact lt_of_mem_digitsOf hd
  · rw [ofDigits_replicate_zero, ofDigits_digitsOf (by decide)]

end MockServer.Number
