import MockServer.Number.Digits

/-!
UTF-8 read byte by byte. Bytes that belong to no character are kept as faults, each as long as the
longest start of a character that they form, so one reading serves strict and lenient callers.
-/
namespace MockServer.Text.Utf8

/-- What bytes stand for: a character, or the first bytes of one that the next byte does not
continue (`length` of them, at least one), or such bytes at the end of the text. -/
inductive Item where
  | char (c : Char)
  | invalid (length : Nat)
  | incomplete
  deriving DecidableEq, Repr

/-- The start of a character: how many bytes were taken and how many are missing, the bounds of the
next byte, and the value so far. -/
structure Pending where
  taken : Nat
  missing : Nat
  low : Nat
  high : Nat
  value : Nat
  deriving DecidableEq, Repr

/-- What a byte that starts a character announces. No overlong form, surrogate or value above
U+10FFFF can be completed within the bounds. -/
def lead? (b : Nat) : Option Pending :=
  if 0xC2 ≤ b ∧ b ≤ 0xDF then some ⟨1, 1, 0x80, 0xBF, b - 0xC0⟩
  else if b = 0xE0 then some ⟨1, 2, 0xA0, 0xBF, 0⟩
  else if b = 0xED then some ⟨1, 2, 0x80, 0x9F, 0xD⟩
  else if 0xE1 ≤ b ∧ b ≤ 0xEF then some ⟨1, 2, 0x80, 0xBF, b - 0xE0⟩
  else if b = 0xF0 then some ⟨1, 3, 0x90, 0xBF, 0⟩
  else if 0xF1 ≤ b ∧ b ≤ 0xF3 then some ⟨1, 3, 0x80, 0xBF, b - 0xF0⟩
  else if b = 0xF4 then some ⟨1, 3, 0x80, 0x8F, 4⟩
  else none

/-- The items so far (in reverse) and the character that is being read. -/
structure State where
  items : List Item := []
  pending : Option Pending := none

namespace State

/-- A byte where a character must start. -/
def start (items : List Item) (b : Nat) : State :=
  if b < 0x80 then ⟨.char (Char.ofNat b) :: items, none⟩
  else match lead? b with
    | some p => ⟨items, some p⟩
    | none => ⟨.invalid 1 :: items, none⟩

/-- A byte that does not continue a character ends it as a fault and starts the next one. -/
def step (s : State) (byte : UInt8) : State :=
  let b := byte.toNat
  match s.pending with
  | none => start s.items b
  | some p =>
    if p.low ≤ b ∧ b ≤ p.high then
      let value := p.value * 64 + b % 64
      if p.missing ≤ 1 then ⟨.char (Char.ofNat value) :: s.items, none⟩
      else ⟨s.items, some ⟨p.taken + 1, p.missing - 1, 0x80, 0xBF, value⟩⟩
    else start (.invalid p.taken :: s.items) b

def finish (s : State) : List Item :=
  (if s.pending.isSome then .incomplete :: s.items else s.items).reverse

end State

def items (bytes : List UInt8) : List Item := (bytes.foldl State.step {}).finish

/-- The characters of a text, where `none` stands for bytes that belong to none. -/
def marked (bytes : List UInt8) : List (Option Char) :=
  (items bytes).map fun
    | .char c => some c
    | _ => none

/-- Every fault becomes one U+FFFD. -/
def lenient (bytes : List UInt8) : List Char := (marked bytes).map (·.getD '\uFFFD')

/-- The first fault of a text: the bytes before it, and its length unless the text ends in it. -/
structure Fault where
  offset : Nat
  length : Option Nat
  deriving DecidableEq, Repr

def Fault.message (f : Fault) : String :=
  let offset := String.ofList (Number.natText f.offset)
  match f.length with
  | some n =>
    "invalid utf-8 sequence of " ++ String.ofList (Number.natText n) ++ " bytes from index " ++
      offset
  | none => "incomplete utf-8 byte sequence from index " ++ offset

/-- The characters before the first fault (in reverse, `offset` bytes long) and what follows. -/
def strictAfter (offset : Nat) (chars : List Char) : List Item → Except Fault (List Char)
  | [] => .ok chars.reverse
  | .char c :: rest => strictAfter (offset + c.utf8Size) (c :: chars) rest
  | .invalid n :: _ => .error ⟨offset, some n⟩
  | .incomplete :: _ => .error ⟨offset, none⟩

/-- The text that the bytes encode, or the first fault. -/
def decode (bytes : List UInt8) : Except Fault (List Char) := strictAfter 0 [] (items bytes)

/-- The bytes of one character. -/
def encodeChar (c : Char) : List UInt8 :=
  let n := c.toNat
  if n < 0x80 then [UInt8.ofNat n]
  else if n < 0x800 then [UInt8.ofNat (0xC0 + n / 64), UInt8.ofNat (0x80 + n % 64)]
  else if n < 0x10000 then
    [UInt8.ofNat (0xE0 + n / 4096), UInt8.ofNat (0x80 + n / 64 % 64), UInt8.ofNat (0x80 + n % 64)]
  else
    [UInt8.ofNat (0xF0 + n / 262144), UInt8.ofNat (0x80 + n / 4096 % 64),
     UInt8.ofNat (0x80 + n / 64 % 64), UInt8.ofNat (0x80 + n % 64)]

def encode (s : List Char) : List UInt8 := s.flatMap encodeChar

end MockServer.Text.Utf8
