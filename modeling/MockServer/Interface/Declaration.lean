import MockServer.Text.Blank
import MockServer.Text.Word

/-!
Field declarations: a name, an optional question mark, a colon and a type expression.
-/
namespace MockServer.Interface

open MockServer.Text

/-- A field as it is written. The type expression may have blanks and a semicolon at its end. -/
structure Declaration where
  name : List Char
  isOptional : Bool
  type : List Char
  deriving DecidableEq, Repr

namespace Declaration

/-- Whether a question mark comes next, and what follows it. -/
def optionalMark : List Char → Bool × List Char
  | '?' :: rest => (true, rest)
  | s => (false, s)

/-- What follows the colon of a text that starts right after a field name, and whether the field
is optional. Blanks may stand before the colon, but not before the question mark. -/
def afterName? (s : List Char) : Option (Bool × List Char) :=
  match trimStart (optionalMark s).2 with
  | ':' :: type => some ((optionalMark s).1, type)
  | _ => none

/-- A type expression without one semicolon at its very end. -/
def withoutSemicolon (s : List Char) : List Char :=
  if s.getLast? = some ';' then s.dropLast else s

/-- The declaration that starts with the first character, which is a word character. Nothing but
the end of the text bounds the type, and there must be something after the colon. -/
def atStart? (s : List Char) : Option Declaration :=
  match afterName? (s.dropWhile isWord) with
  | some (isOptional, c :: type) =>
    some ⟨s.takeWhile isWord, isOptional, withoutSemicolon (trimStart (c :: type))⟩
  | _ => none

/-- The declaration that starts at the first word that can start one. Whatever precedes that word
is ignored. -/
def read? (s : List Char) : Option Declaration :=
  match _h : s.dropWhile (!isWord ·) with
  | [] => none
  | c :: rest =>
    match atStart? (c :: rest) with
    | some d => some d
    | none => read? (rest.dropWhile isWord)
termination_by s.length
decreasing_by
  have h1 := (List.dropWhile_sublist (!isWord ·) (l := s)).length_le
  have h2 := (List.dropWhile_sublist isWord (l := rest)).length_le
  rw [_h, List.length_cons] at h1
  omega

/-- Whether the text starts, after blanks, with a name, an optional question mark and a colon. -/
def opens (line : List Char) : Bool :=
  let s := trimStart line
  !(s.takeWhile isWord).isEmpty && (afterName? (s.dropWhile isWord)).isSome

theorem length_withoutSemicolon_le (s : List Char) : (withoutSemicolon s).length ≤ s.length := by
  unfold withoutSemicolon; split <;> simp

private theorem length_afterName? {s type : List Char} {o : Bool}
    (h : afterName? s = some (o, type)) :
    type.length < s.length := by
  unfold afterName? at h
  have ho : (optionalMark s).2.length ≤ s.length := by
    unfold optionalMark; split <;> simp
  have ht := trimStart_length_le (optionalMark s).2
  split at h
  · rename_i heq
    rw [heq, List.length_cons] at ht
    simp only [Option.some.injEq, Prod.mk.injEq] at h
    rw [← h.2]; omega
  · simp at h

private theorem length_atStart? {s : List Char} {d : Declaration} (h : atStart? s = some d) :
    d.type.length < s.length := by
  unfold atStart? at h
  split at h
  · rename_i heq
    simp only [Option.some.injEq] at h
    subst h
    have h1 := length_afterName? heq
    have h2 := (List.dropWhile_sublist isWord (l := s)).length_le
    exact Nat.lt_of_le_of_lt
      (Nat.le_trans (length_withoutSemicolon_le _) (trimStart_length_le _)) (by omega)
  · simp at h

/-- The type expression is shorter than the text that the declaration was read from. -/
theorem length_type_lt {s : List Char} {d : Declaration} (h : read? s = some d) :
    d.type.length < s.length := by
  fun_induction read? s with
  | case1 => simp at h
  | case2 s c rest hs e he =>
    have h1 := (List.dropWhile_sublist (!isWord ·) (l := s)).length_le
    rw [hs] at h1
    simp only [Option.some.injEq] at h
    exact Nat.lt_of_lt_of_le (length_atStart? (h ▸ he)) h1
  | case3 s c rest hs he ih =>
    have h1 := (List.dropWhile_sublist (!isWord ·) (l := s)).length_le
    have h2 := (List.dropWhile_sublist isWord (l := rest)).length_le
    rw [hs, List.length_cons] at h1
    have := ih h
    omega

end Declaration
end MockServer.Interface
