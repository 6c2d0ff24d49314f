import MockServer.Text.WordBounds

/-!
Word characters, of which identifiers are made. ASCII is decided without the table.
-/
namespace MockServer.Text

/-- How many entries of a sorted array do not exceed `x`, given that this number lies between
`lo` and `hi`. -/
def rankBetween (bounds : Array Nat) (x lo hi : Nat) : Nat :=
  if lo < hi then
    let mid := (lo + hi) / 2
    if bounds.getD mid 0 ≤ x then rankBetween bounds x (mid + 1) hi
    else rankBetween bounds x lo mid
  else lo
termination_by hi - lo

/-- ASCII letters, ASCII digits and the underscore. -/
def isAsciiWord (c : Char) : Bool := c.isAlphanum || c == '_'

/-- A code point is in the class when an odd number of bounds do not exceed it. -/
def isWord (c : Char) : Bool :=
  if c.toNat < 128 then isAsciiWord c
  else rankBetween wordBounds c.toNat 0 wordBounds.size % 2 == 1

end MockServer.Text
