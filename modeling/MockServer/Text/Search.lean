/-!
Finding a keyword of lower-case ASCII letters in a text, whatever the case of the text.
-/
namespace MockServer.Text

/-- Whether `needle` occurs in the text as a contiguous part. -/
def contains (needle : List Char) : List Char → Bool
  | [] => needle.isEmpty
  | c :: s => needle.isPrefixOf (c :: s) || contains needle s

/-- Lower-casing as far as a keyword of ASCII letters can see it. Besides the ASCII capitals only
U+0130 (`i` and a combining dot) and U+212A (`k`) have an ASCII letter in their lower case. -/
def foldCase (c : Char) : List Char :=
  if c == '\u0130' then ['i', '\u0307']
  else if c == '\u212A' then ['k']
  else [c.toLower]

/-- Case folding is character by character, so it distributes over concatenation. -/
def foldText (s : List Char) : List Char := s.flatMap foldCase

theorem foldText_append (s t : List Char) : foldText (s ++ t) = foldText s ++ foldText t :=
  List.flatMap_append

theorem contains_iff {needle s : List Char} : contains needle s = true ↔ needle <:+: s := by
  induction s with
  | nil => cases needle <;> simp [contains]
  | cons c s ih =>
    rw [contains, Bool.or_eq_true, ih, List.isPrefixOf_iff_prefix, List.infix_cons_iff]

end MockServer.Text
