/-!
Comments of interface texts. All block comments go first and line comments after them, so a block
that opens inside a line comment still runs to its end.
-/
namespace MockServer.Interface

/-- What follows the first end of a block comment. -/
def afterBlock? : List Char → Option (List Char)
  | [] => none
  | '*' :: '/' :: rest => some rest
  | _ :: rest => afterBlock? rest

theorem afterBlock?_length {s t : List Char} (h : afterBlock? s = some t) :
    t.length < s.length := by
  fun_induction afterBlock? s with
  | case1 => simp at h
  | case2 rest => simp_all +arith
  | case3 c rest _ ih => have := ih h; simp only [List.length_cons]; omega

/-- Text without its block comments, after what was kept before it (in reverse). An opening that
is never closed is ordinary text. -/
def withoutBlocksAfter (kept : List Char) : List Char → List Char
  | [] => kept.reverse
  | '/' :: '*' :: rest =>
    match _h : afterBlock? rest with
    | some later => withoutBlocksAfter kept later
    | none => kept.reverse ++ '/' :: '*' :: rest
  | c :: rest => withoutBlocksAfter (c :: kept) rest
termination_by s => s.length
decreasing_by
  · have := afterBlock?_length _h
    simp only [List.length_cons]; omega
  · simp

def withoutBlocks (s : List Char) : List Char := withoutBlocksAfter [] s

/-- Text without its line comments, after what was kept before it (in reverse). The newline that
ends a comment stays. -/
def withoutLinesAfter (kept : List Char) : List Char → List Char
  | [] => kept.reverse
  | '/' :: '/' :: rest => withoutLinesAfter kept (rest.dropWhile (· != '\n'))
  | c :: rest => withoutLinesAfter (c :: kept) rest
termination_by s => s.length
decreasing_by
  · have := (List.dropWhile_sublist (· != '\n') (l := rest)).length_le
    simp only [List.length_cons]; omega
  · simp

def withoutLines (s : List Char) : List Char := withoutLinesAfter [] s

def withoutComments (s : List Char) : List Char := withoutLines (withoutBlocks s)

theorem withoutBlocksAfter_closed {rest later : List Char} (h : afterBlock? rest = some later)
    (kept : List Char) :
    withoutBlocksAfter kept ('/' :: '*' :: rest) = withoutBlocksAfter kept later := by
  rw [withoutBlocksAfter]; split <;> simp_all

theorem withoutBlocksAfter_unclosed {rest : List Char} (h : afterBlock? rest = none)
    (kept : List Char) :
    withoutBlocksAfter kept ('/' :: '*' :: rest) = kept.reverse ++ '/' :: '*' :: rest := by
  rw [withoutBlocksAfter]; split <;> simp_all

private theorem withoutBlocksAfter_of_length (n : Nat) (kept s : List Char) (hs : s.length ≤ n) :
    withoutBlocksAfter kept s = kept.reverse ++ withoutBlocksAfter [] s := by
  induction n generalizing kept s with
  | zero =>
    obtain rfl : s = [] := List.eq_nil_of_length_eq_zero (by omega)
    simp [withoutBlocksAfter]
  | succ n ih =>
    fun_cases withoutBlocksAfter kept s with
    | case1 => simp [withoutBlocksAfter]
    | case2 rest later h =>
      have hl := afterBlock?_length h
      simp only [List.length_cons] at hs
      rw [withoutBlocksAfter_closed h, ih kept later (by omega)]
    | case3 rest h =>
      rw [withoutBlocksAfter_unclosed h]; rfl
    | case4 c rest hne =>
      simp only [List.length_cons] at hs
      rw [withoutBlocksAfter.eq_3 [] c rest hne,
        ih (c :: kept) rest (by omega), ih [c] rest (by omega)]
      simp

/-- What was kept before only stands in front. -/
theorem withoutBlocksAfter_eq (kept s : List Char) :
    withoutBlocksAfter kept s = kept.reverse ++ withoutBlocks s :=
  withoutBlocksAfter_of_length s.length kept s (Nat.le_refl _)

private theorem withoutLinesAfter_of_length (n : Nat) (kept s : List Char) (hs : s.length ≤ n) :
    withoutLinesAfter kept s = kept.reverse ++ withoutLinesAfter [] s := by
  induction n generalizing kept s with
  | zero =>
    obtain rfl : s = [] := List.eq_nil_of_length_eq_zero (by omega)
    simp [withoutLinesAfter]
  | succ n ih =>
    fun_cases withoutLinesAfter kept s with
    | case1 => simp [withoutLinesAfter]
    | case2 rest =>
      have hl := (List.dropWhile_sublist (· != '\n') (l := rest)).length_le
      simp only [List.length_cons] at hs
      rw [withoutLinesAfter.eq_2, ih kept _ (by omega)]
    | case3 c rest hne =>
      simp only [List.length_cons] at hs
      rw [withoutLinesAfter.eq_3 [] c rest hne,
        ih (c :: kept) rest (by omega), ih [c] rest (by omega)]
      simp

theorem withoutLinesAfter_eq (kept s : List Char) :
    withoutLinesAfter kept s = kept.reverse ++ withoutLines s :=
  withoutLinesAfter_of_length s.length kept s (Nat.le_refl _)

end MockServer.Interface
