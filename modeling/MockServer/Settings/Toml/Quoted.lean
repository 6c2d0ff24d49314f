import MockServer.Number.Digits

/-!
Quoted strings of TOML and the keys that are written with or without quotes. A string in triple
quotes may run over several lines.
-/
namespace MockServer.Toml

open MockServer.Number

/-- The characters of a bare key. -/
def isBare (c : Char) : Bool := c.isAlphanum || c == '_' || c == '-'

/-- The characters that may stand in a string or a comment; the end of a line may not. -/
def isPlain (c : Char) : Bool := c == '\t' || 0x20 ≤ c.toNat

/-- Spaces and tabs. -/
def skipBlanks (s : List Char) : List Char := s.dropWhile fun c => c == ' ' || c == '\t'

/-- The character that an escaped letter stands for. -/
def escaped? (c : Char) : Option Char :=
  if c = '"' ∨ c = '\\' then some c
  else if c = 'b' then some '\x08'
  else if c = 't' then some '\t'
  else if c = 'n' then some '\n'
  else if c = 'f' then some '\x0c'
  else if c = 'r' then some '\r'
  else none

/-- The character with a number, unless the number is that of a surrogate or too large. -/
def charOfNumber? (n : Nat) : Option Char := if n.isValidChar then some (Char.ofNat n) else none

/-- The character whose number is written in `width` hexadecimal digits. -/
def charOfHex? (width : Nat) (s : List Char) : Option Char :=
  match (s.take width).mapM hexDigit? with
  | some digits => if digits.length = width then charOfNumber? (ofDigits 16 digits) else none
  | none => none

/-- The character that an escape stands for, after its backslash, and what follows it. -/
def escape? : List Char → Option (Char × List Char)
  | 'u' :: rest => (charOfHex? 4 rest).map (·, rest.drop 4)
  | 'U' :: rest => (charOfHex? 8 rest).map (·, rest.drop 8)
  | c :: rest => (escaped? c).map (·, rest)
  | [] => none

/-- What a backslash at the end of a line joins to it: the next line that is not blank, without the
blanks before it. -/
def joined? (s : List Char) : Option (List Char) :=
  match skipBlanks s with
  | '\n' :: rest => some (rest.dropWhile fun c => c == ' ' || c == '\t' || c == '\n')
  | _ => none

/-- How a string is written: which character quotes it, and whether three of them do. -/
structure Quoting where
  quote : Char
  triple : Bool
  deriving DecidableEq, Repr

namespace Quoting

/-- The end of a string, if it is here: what of it still belongs to the text, and what follows it.
Triple quotes that close a string may have up to two more quotes before them. -/
def closing? (q : Quoting) (s : List Char) : Option (List Char × List Char) :=
  let quotes := (s.takeWhile (· == q.quote)).length
  if q.triple then
    let more := min 2 (quotes - 3)
    if 3 ≤ quotes then some (List.replicate more q.quote, s.drop (3 + more)) else none
  else if 1 ≤ quotes then some ([], s.drop 1)
  else none

/-- What the next part of a string stands for, and what follows it. Only double quotes have escapes,
and only triple quotes have ends of lines. -/
def part? (q : Quoting) : List Char → Option (List Char × List Char)
  | [] => none
  | c :: rest =>
    if c = '\\' ∧ q.quote = '"' then
      match escape? rest with
      | some (c, rest) => some ([c], rest)
      | none => if q.triple then (joined? rest).map ([], ·) else none
    else if (isPlain c ∧ c ≠ '\x7f') ∨ (c = '\n' ∧ q.triple) then some ([c], rest)
    else none

/-- The rest of a string of at most `fuel` parts, after `done` (in reverse), and what follows its
closing quotes. -/
def textWithin? (q : Quoting) : Nat → List Char → List Char → Option (String × List Char)
  | 0, _, _ => none
  | fuel + 1, done, s =>
    match q.closing? s with
    | some (more, rest) => some (String.ofList (done.reverse ++ more), rest)
    | none => do
      let (part, rest) ← q.part? s
      q.textWithin? fuel (part ++ done) rest

/-- The text of a string after its opening quotes, and what follows the closing ones. Every part has
a character, so the length bounds how many there are. -/
def text? (q : Quoting) (s : List Char) : Option (String × List Char) :=
  q.textWithin? (s.length + 1) [] s

end Quoting

/-- A string on one line, in quotes of either kind. -/
def quoted? : List Char → Option (String × List Char)
  | c :: rest => if c = '"' ∨ c = '\'' then Quoting.text? ⟨c, false⟩ rest else none
  | [] => none

/-- A text without the end of line that it may start with. -/
def withoutLineEnd : List Char → List Char
  | '\n' :: rest => rest
  | s => s

/-- A string that is a value. An end of line right after triple quotes is not part of the text. -/
def string? : List Char → Option (String × List Char)
  | '"' :: '"' :: '"' :: rest => Quoting.text? ⟨'"', true⟩ (withoutLineEnd rest)
  | '\'' :: '\'' :: '\'' :: rest => Quoting.text? ⟨'\'', true⟩ (withoutLineEnd rest)
  | s => quoted? s

abbrev Path := List String

/-- One part of a key. -/
def simpleKey? (s : List Char) : Option (String × List Char) :=
  match s.takeWhile isBare with
  | [] => quoted? s
  | word => some (String.ofList word, s.dropWhile isBare)

/-- A key of at most `fuel` parts, and what follows it. -/
def keyWithin? : Nat → List Char → Option (Path × List Char)
  | 0, _ => none
  | fuel + 1, s => do
    let (part, rest) ← simpleKey? s
    match skipBlanks rest with
    | '.' :: rest =>
      let (path, rest) ← keyWithin? fuel (skipBlanks rest)
      return (part :: path, rest)
    | rest => return ([part], rest)

/-- A key with the blanks after it. Every part has a character, so the length bounds how many
there are. -/
def key? (s : List Char) : Option (Path × List Char) := keyWithin? s.length s

/-- A key and the equals sign after it. -/
def assigned? (s : List Char) : Option (Path × List Char) := do
  let (path, rest) ← key? s
  match rest with
  | '=' :: rest => return (path, skipBlanks rest)
  | _ => none

end MockServer.Toml
