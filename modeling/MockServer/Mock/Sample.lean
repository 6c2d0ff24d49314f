import MockServer.Interface.Model
import MockServer.Random.Draw

/-!
Made-up texts for every string format, and words for strings without one. In the samples given here
every choice is among a power of two of items, so a single random word decides it, and evenly.
-/
namespace MockServer.Mock

open MockServer.Random

/-- Where made-up texts come from. Generation takes them as they are. -/
class Phrasebook where
  /-- One of the words that make up a string without a format. -/
  word : Draw String
  /-- A text of a format that is no identifier. -/
  text : StringFormat → Draw String

def loremWord : Draw String :=
  pick 4 "lorem" ["ipsum", "dolor", "sit", "amet", "tempora", "quia", "magni", "velit", "sed",
    "fugit", "alias", "rerum", "natus", "optio", "culpa"]

def firstName : Draw String :=
  pick 4 "Ada" ["Bruno", "Clara", "Dario", "Elena", "Farid", "Greta", "Hugo", "Irene", "Jonas",
    "Keiko", "Lena", "Marco", "Nadia", "Oscar", "Petra"]

def lastName : Draw String :=
  pick 4 "Abbott" ["Becker", "Castro", "Dietrich", "Evans", "Fischer", "Garcia", "Hansen",
    "Ivanova", "Jensen", "Keller", "Lopez", "Moreau", "Novak", "Olsen", "Price"]

def mailDomain : Draw String := pick 2 "com" ["net", "org", "com"]

def domainSuffix : Draw String := pick 3 "com" ["net", "org", "info", "biz", "name", "io", "co"]

def streetSuffix : Draw String :=
  pick 3 "Street" ["Avenue", "Road", "Lane", "Square", "Court", "Drive", "Way"]

def companySuffix : Draw String := pick 2 "Inc" ["and Sons", "LLC", "Group"]

/-- A digit from 2 to 9, which may stand anywhere in a telephone number. -/
def phoneDigit : Draw String := do return toString (2 + (← topBits 3))

def phoneDigits (n : Nat) : Draw String := do return String.join (← times n phoneDigit)

/-- A text of a format. Identifiers are no texts of this kind and give a plain word. -/
def sampleText : StringFormat → Draw String
  | .email => do return (← loremWord) ++ "@example." ++ (← mailDomain)
  | .url => do return "https://www." ++ (← loremWord) ++ "." ++ (← domainSuffix)
  | .phone => do
    return (← phoneDigits 3) ++ "-" ++ (← phoneDigits 3) ++ "-" ++ (← phoneDigits 4)
  | .name => do return (← firstName) ++ " " ++ (← lastName)
  | .address => do
    let number ← topBits 12
    return toString (100 + number) ++ " " ++ (← lastName) ++ " " ++ (← streetSuffix)
  | .company => do return (← lastName) ++ " " ++ (← companySuffix)
  | .uuid => loremWord

instance samples : Phrasebook := ⟨loremWord, sampleText⟩

end MockServer.Mock
