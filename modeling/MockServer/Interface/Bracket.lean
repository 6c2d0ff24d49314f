/-!
Bracket depth in interface texts: the close of an open brace, and cuts outside all brackets.
A closing bracket of any kind closes an opening one of any kind, and one too many is ignored.
-/
namespace MockServer.Interface

def isOpening (c : Char) : Bool := c == '{' || c == '(' || c == '['

def isClosing (c : Char) : Bool := c == '}' || c == ')' || c == ']'

/-- The depth after one character. It does not fall below zero. -/
def depthAfter (depth : Nat) (c : Char) : Nat :=
  if isOpening c then depth + 1 else if isClosing c then depth - 1 else depth

/-- The depth after a text that starts at `depth`. -/
def depthOf (depth : Nat) (s : List Char) : Nat := s.foldl depthAfter depth

/-- What stands before the brace that closes `depth + 1` open ones, after what was kept (in
reverse). Only braces count here. -/
def closeAfter? (depth : Nat) (kept : List Char) : List Char → Option (List Char)
  | [] => none
  | c :: rest =>
    if c = '{' then closeAfter? (depth + 1) (c :: kept) rest
    else if c = '}' then
      if depth = 0 then some kept.reverse else closeAfter? (depth - 1) (c :: kept) rest
    else closeAfter? depth (c :: kept) rest

/-- The text inside a brace that is already open; all of it if the brace is never closed. -/
def insideBrace (s : List Char) : List Char := (closeAfter? 0 [] s).getD s

/-- The text cut at every separator outside brackets, where `piece` is the start of the current
piece and `done` the finished ones (both in reverse). The last piece may be empty. -/
def cutAfter (isSeparator : Char → Bool) (depth : Nat) (piece : List Char)
    (done : List (List Char)) : List Char → List (List Char)
  | [] => (piece.reverse :: done).reverse
  | c :: rest =>
    if depth = 0 ∧ isSeparator c then cutAfter isSeparator 0 [] (piece.reverse :: done) rest
    else cutAfter isSeparator (depthAfter depth c) (c :: piece) done rest

/-- Separators are no brackets. -/
def cutOutsideBrackets (isSeparator : Char → Bool) (s : List Char) : List (List Char) :=
  cutAfter isSeparator 0 [] [] s

private theorem length_le_of_mem_cutAfter {isSeparator : Char → Bool} {depth n : Nat}
    {piece s p : List Char} {done : List (List Char)} (hn : piece.length + s.length ≤ n)
    (hd : ∀ q ∈ done, q.length ≤ n) (hp : p ∈ cutAfter isSeparator depth piece done s) :
    p.length ≤ n := by
  induction s generalizing depth piece done with
  | nil =>
    simp only [cutAfter, List.mem_reverse, List.mem_cons] at hp
    rcases hp with rfl | hp
    · simpa using hn
    · exact hd p hp
  | cons c rest ih =>
    simp only [List.length_cons] at hn
    rw [cutAfter] at hp
    split at hp
    · refine ih (by simp; omega) ?_ hp
      intro q hq
      rcases List.mem_cons.1 hq with rfl | hq
      · simp; omega
      · exact hd q hq
    · exact ih (by simp; omega) hd hp

/-- No piece is longer than the text it was cut from. -/
theorem length_le_of_mem_cut {isSeparator : Char → Bool} {s p : List Char}
    (hp : p ∈ cutOutsideBrackets isSeparator s) : p.length ≤ s.length :=
  length_le_of_mem_cutAfter (by simp) (by simp) hp

private theorem length_closeAfter? {depth : Nat} {kept s t : List Char}
    (h : closeAfter? depth kept s = some t) : t.length ≤ kept.length + s.length := by
  induction s generalizing depth kept with
  | nil => simp [closeAfter?] at h
  | cons c rest ih =>
    rw [closeAfter?] at h
    split at h
    · have := ih h; simp only [List.length_cons] at *; omega
    split at h
    · split at h
      · simp only [Option.some.injEq] at h; subst h; simp
      · have := ih h; simp only [List.length_cons] at *; omega
    · have := ih h; simp only [List.length_cons] at *; omega

theorem length_insideBrace_le (s : List Char) : (insideBrace s).length ≤ s.length := by
  unfold insideBrace
  cases h : closeAfter? 0 [] s with
  | none => simp
  | some t => simpa using length_closeAfter? h

end MockServer.Interface
