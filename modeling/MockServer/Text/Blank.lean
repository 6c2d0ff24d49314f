/-!
White space: the characters with the Unicode property White_Space, and texts cut at their ends.
-/
namespace MockServer.Text

/-- The property White_Space. U+200B and U+FEFF do not have it. -/
def isBlank (c : Char) : Bool :=
  let n := c.toNat
  (9 ≤ n && n ≤ 13) || n == 0x20 || n == 0x85 || n == 0xA0 || n == 0x1680 ||
    (0x2000 ≤ n && n ≤ 0x200A) || n == 0x2028 || n == 0x2029 || n == 0x202F || n == 0x205F ||
    n == 0x3000

def trimStart (s : List Char) : List Char := s.dropWhile isBlank

def trimEnd (s : List Char) : List Char := (s.reverse.dropWhile isBlank).reverse

/-- Both ends are cut, so what is left neither starts nor ends with a blank. -/
def trim (s : List Char) : List Char := trimEnd (trimStart s)

/-- A blank text has nothing left after trimming; the empty text is blank. -/
def isBlankText (s : String) : Bool := s.toList.all isBlank

theorem trimStart_cons_of_blank {c : Char} (h : isBlank c = true) (s : List Char) :
    trimStart (c :: s) = trimStart s := by
  simp [trimStart, h]

theorem trimStart_cons_of_not_blank {c : Char} (h : isBlank c = false) (s : List Char) :
    trimStart (c :: s) = c :: s := by
  simp [trimStart, h]

theorem trimStart_length_le (s : List Char) : (trimStart s).length ≤ s.length :=
  (List.dropWhile_sublist isBlank).length_le

theorem trimEnd_length_le (s : List Char) : (trimEnd s).length ≤ s.length := by
  have h := (List.dropWhile_sublist isBlank (l := s.reverse)).length_le
  simpa [trimEnd] using h

theorem trim_length_le (s : List Char) : (trim s).length ≤ s.length :=
  Nat.le_trans (trimEnd_length_le _) (trimStart_length_le s)

end MockServer.Text
