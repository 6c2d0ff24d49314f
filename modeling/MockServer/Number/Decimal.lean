import MockServer.Number.Binary64
import MockServer.Number.Digits

/-!
Decimal text as 64-bit values: a sign, digits around a point, an exponent, or the name of infinity
or NaN.
-/
namespace MockServer.Number

/-- Whether a minus sign stands before a text, and the text without its sign. -/
def signed : List Char → Bool × List Char
  | '-' :: s => (true, s)
  | '+' :: s => (false, s)
  | s => (false, s)

/-- The exponent that ends a number; the empty text stands for zero. -/
def exponent? : List Char → Option Int
  | [] => some 0
  | c :: s => if c = 'e' ∨ c = 'E' then int? s else none

namespace Binary64

/-- Digits with an optional point among or beside them, and an optional exponent. -/
def ofUnsigned? (negative : Bool) (s : List Char) : Option Binary64 :=
  let whole := s.takeWhile Char.isDigit
  let (fraction, rest) := match s.dropWhile Char.isDigit with
    | '.' :: rest => (rest.takeWhile Char.isDigit, rest.dropWhile Char.isDigit)
    | rest => ([], rest)
  match nat? (whole ++ fraction), exponent? rest with
  | some digits, some e => some (ofDecimal negative digits (e - fraction.length))
  | _, _ => none

/-- The value nearest to a written number. Names of special values are read in any case. -/
def ofText? (s : List Char) : Option Binary64 :=
  let (negative, s) := signed s
  let name := String.ofList (s.map Char.toLower)
  if name = "nan" then some nan
  else if name = "inf" ∨ name = "infinity" then some (if negative then infinity.neg else infinity)
  else ofUnsigned? negative s

end Binary64
end MockServer.Number
