import MockServer.Number.Digits

/-!
Paths of keys as one text: names with points between them, and places in lists in square brackets.
-/
namespace MockServer

/-- One step into a value: into a table by the name of a member, or into a list by a place. A place
below zero counts from the end. -/
inductive KeyStep where
  | name (s : String)
  | place (i : Int)
  deriving DecidableEq, Repr

abbrev KeyPath := List KeyStep

namespace KeyPath

/-- The characters of a name. The space is one of them. -/
def isNameChar (c : Char) : Bool := c.isAlphanum || c == '_' || c == '-' || c == ' '

/-- A name, which is not empty, and what follows it. -/
def name? (s : List Char) : Option (KeyStep × List Char) :=
  match s.takeWhile isNameChar with
  | [] => none
  | name => some (.name (String.ofList name), s.dropWhile isNameChar)

/-- A place of 64 bits with sign, after its opening bracket, and what follows the closing one.
Spaces and tabs may stand around the place, but no plus sign before it. -/
def place? (s : List Char) : Option (KeyStep × List Char) :=
  let isGap : Char → Bool := fun c => c == ' ' || c == '\t'
  let inside := (s.takeWhile (· != ']')).dropWhile isGap
  match (inside.reverse.dropWhile isGap).reverse, s.dropWhile (· != ']') with
  | '+' :: _, _ | _, [] => none
  | text, _ :: rest => (Number.int64? text).map fun i => (.place i, rest)

/-- The steps after the first name, of which there are at most `fuel`. -/
def stepsWithin? : Nat → List Char → Option KeyPath
  | _, [] => some []
  | fuel + 1, '.' :: rest => do
    let (step, rest) ← name? rest
    return step :: (← stepsWithin? fuel rest)
  | fuel + 1, '[' :: rest => do
    let (step, rest) ← place? rest
    return step :: (← stepsWithin? fuel rest)
  | _, _ => none

/-- A path starts with a name. Every step takes a character, so the length bounds how many there
are. -/
def ofText? (s : List Char) : Option KeyPath := do
  let (step, rest) ← name? s
  return step :: (← stepsWithin? rest.length rest)

/-- The path that a text writes; a text that writes none is itself the name of a member. -/
def ofText (s : String) : KeyPath := (ofText? s.toList).getD [.name s]

end KeyPath
end MockServer
