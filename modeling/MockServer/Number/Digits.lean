/-!
Decimal numerals as lists of digits, the most significant first.
-/
namespace MockServer.Number

/-- The value of a decimal digit. Only ASCII digits count. -/
def digit? (c : Char) : Option Nat :=
  if '0' ≤ c ∧ c ≤ '9' then some (c.toNat - 48) else none

/-- The character of a digit below ten. -/
def digitChar (d : Nat) : Char := Char.ofNat (48 + d)

/-- The value of digits in a base. -/
def ofDigits (base : Nat) (digits : List Nat) : Nat :=
  digits.foldl (fun n d => n * base + d) 0

/-- The digits of `n` in front of `later`, without leading zeros. -/
def digitsBefore (base : Nat) (later : List Nat) (n : Nat) : List Nat :=
  if base < 2 then n :: later
  else if n < base then n :: later
  else digitsBefore base (n % base :: later) (n / base)
termination_by n
decreasing_by exact Nat.div_lt_self (by omega) (by omega)

/-- Zero is one digit. -/
def digitsOf (base n : Nat) : List Nat := digitsBefore base [] n

/-- The decimal text of a natural number. -/
def natText (n : Nat) : List Char := (digitsOf 10 n).map digitChar

def intText (n : Int) : List Char :=
  if n < 0 then '-' :: natText n.natAbs else natText n.natAbs

/-- At least `width` digits, filled up with zeros. -/
def paddedText (width n : Nat) : List Char :=
  let text := natText n
  List.replicate (width - text.length) '0' ++ text

/-- A text of one or more ASCII digits as a number. -/
def nat? (s : List Char) : Option Nat :=
  if s.isEmpty then none else (s.mapM digit?).map (ofDigits 10)

/-- A plus sign may stand before the digits. -/
def signedNat? : List Char → Option Nat
  | '+' :: s => nat? s
  | s => nat? s

/-- A sign may stand before the digits. -/
def int? : List Char → Option Int
  | '-' :: s => (nat? s).map fun n => -(n : Int)
  | s => (signedNat? s).map Int.ofNat

/-- An integer of 64 bits with sign. -/
def int64? (s : List Char) : Option Int :=
  (int? s).filter fun n => -0x8000000000000000 ≤ n ∧ n < 0x8000000000000000

def uint64? (s : List Char) : Option UInt64 :=
  ((signedNat? s).filter (· < 0x10000000000000000)).map UInt64.ofNat

/-- The value of a hexadecimal digit of either case. -/
def hexDigit? (c : Char) : Option Nat :=
  if '0' ≤ c ∧ c ≤ '9' then some (c.toNat - 48)
  else if 'a' ≤ c ∧ c ≤ 'f' then some (c.toNat - 87)
  else if 'A' ≤ c ∧ c ≤ 'F' then some (c.toNat - 55)
  else none

/-- The lower-case hexadecimal digit below sixteen. -/
def hexChar (d : Nat) : Char := if d < 10 then Char.ofNat (48 + d) else Char.ofNat (87 + d)

end MockServer.Number
