import Mathlib
import MockServer.Number.Digits

/-!
Values of digit lists: the digits before others count by a power of the base, and the digits of a
number have its value.
-/
namespace MockServer.Number

private theorem foldl_digits (base n : Nat) (ds : List Nat) :
    ds.foldl (fun n d => n * base + d) n = n * base ^ ds.length + ofDigits base ds := by
  unfold ofDigits
  induction ds generalizing n with
  | nil => simp
  | cons d ds ih =>
    rw [List.foldl_cons, List.foldl_cons, ih, ih (0 * base + d), List.length_cons, Nat.pow_succ',
      Nat.add_mul, Nat.zero_mul, Nat.zero_add, Nat.mul_assoc, Nat.add_assoc]

private theorem ofDigits_append (base : Nat) (ds es : List Nat) :
    ofDigits base (ds ++ es) = ofDigits base ds * base ^ es.length + ofDigits base es := by
  rw [ofDigits, List.foldl_append, foldl_digits]
  rfl

private theorem ofDigits_digitsBefore (base n : Nat) (later : List Nat) (hb : 2 ≤ base) :
    ofDigits base (digitsBefore base later n) = n * base ^ later.length + ofDigits base later := by
  fun_induction digitsBefore base later n with
  | case1 => omega
  | case2 later n _ hn => rw [← List.singleton_append, ofDigits_append]; simp [ofDigits]
  | case3 later n _ hn ih =>
    rw [ih, List.length_cons, ← List.singleton_append, ofDigits_append, Nat.pow_succ',
      ← Nat.mul_assoc, ← Nat.add_assoc, ← Nat.add_mul]
    simp only [ofDigits, List.foldl_cons, List.foldl_nil, Nat.zero_mul, Nat.zero_add]
    rw [Nat.div_add_mod']

/-- The digits of a number have its value. -/
theorem ofDigits_digitsOf {base : Nat} (hb : 2 ≤ base) (n : Nat) :
    ofDigits base (digitsOf base n) = n := by
  rw [digitsOf, ofDigits_digitsBefore base n [] hb]
  simp [ofDigits]

end MockServer.Number
