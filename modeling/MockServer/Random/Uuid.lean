import MockServer.Number.Digits
import MockServer.Random.Draw

/-!
Identifiers of 128 random bits: version 4 with the RFC variant.
-/
namespace MockServer

/-- Sixteen bytes. -/
structure Uuid where
  bytes : List UInt8
  deriving DecidableEq, Repr

namespace Uuid

/-- Random bytes with the version in the high half of byte 6 and the variant at the top of byte 8;
all other bits are kept. -/
def ofRandom (bytes : List UInt8) : Uuid :=
  ⟨(bytes.modify 6 fun b => b % 16 + 0x40).modify 8 fun b => b % 64 + 0x80⟩

/-- One word a byte, of which the low byte counts. -/
def draw : Random.Draw Uuid := do
  let words ← Random.times 16 Random.word
  return ofRandom (words.map (·.toUInt8))

def byteText (b : UInt8) : List Char :=
  [Number.hexChar (b.toNat / 16), Number.hexChar (b.toNat % 16)]

/-- Thirty-two lower-case hexadecimal digits. -/
def simpleText (u : Uuid) : List Char := u.bytes.flatMap byteText

/-- Groups of 8, 4, 4, 4 and 12 digits with hyphens between them. -/
def text (u : Uuid) : List Char :=
  let s := u.simpleText
  s.take 8 ++ '-' :: ((s.drop 8).take 4 ++ '-' :: ((s.drop 12).take 4 ++
    '-' :: ((s.drop 16).take 4 ++ '-' :: s.drop 20)))

end Uuid
end MockServer
