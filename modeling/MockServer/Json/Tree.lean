/-!
JSON values as they are written: strings with their escapes and numbers digit by digit, so that
what is skipped need not be valid and what is kept can be judged later.
-/
namespace MockServer.Json

/-- The characters of an input; `none` stands for bytes that are no character. -/
abbrev Input := List (Option Char)

def Input.ofText (s : List Char) : Input := s.map some

/-- A part of a quoted string: a character (also one that was escaped by a letter), a UTF-16 unit
escaped by its number, or bytes that are no character. -/
inductive Piece where
  | char (c : Char)
  | unit (u : Nat)
  | bad
  deriving DecidableEq, Repr

abbrev Quoted := List Piece

/-- A number as it is written. The whole part has no leading zero, and no part is empty. -/
structure Numeral where
  negative : Bool := false
  whole : List Nat := []
  fraction : Option (List Nat) := none
  exponent : Option (Bool × List Nat) := none
  deriving DecidableEq, Repr

/-- A value as it is written. Members keep their order and may repeat a key. -/
inductive Tree where
  | null
  | bool (b : Bool)
  | number (n : Numeral)
  | string (q : Quoted)
  | array (items : List Tree)
  | object (members : List (Quoted × Tree))
  deriving Repr

namespace Quoted

def isHighSurrogate (u : Nat) : Bool := 0xD800 ≤ u && u < 0xDC00
def isLowSurrogate (u : Nat) : Bool := 0xDC00 ≤ u && u < 0xE000

/-- The characters of a string after `done` (in reverse). A surrogate must be one of a pair of
escaped units. -/
def textAfter? (done : List Char) : Quoted → Option (List Char)
  | [] => some done.reverse
  | .char c :: rest => textAfter? (c :: done) rest
  | .bad :: _ => none
  | .unit high :: .unit low :: rest =>
    if isHighSurrogate high then
      if isLowSurrogate low then
        textAfter? (Char.ofNat (0x10000 + (high - 0xD800) * 0x400 + (low - 0xDC00)) :: done) rest
      else none
    else if isLowSurrogate high then none
    else textAfter? (Char.ofNat high :: done) (.unit low :: rest)
  | .unit u :: rest =>
    if isHighSurrogate u || isLowSurrogate u then none else textAfter? (Char.ofNat u :: done) rest

def text? (q : Quoted) : Option String := (textAfter? [] q).map String.ofList

end Quoted
end MockServer.Json
