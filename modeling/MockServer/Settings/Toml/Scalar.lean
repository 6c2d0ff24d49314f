import MockServer.Settings.ConfigValue
import MockServer.Settings.Toml.DateTime
import MockServer.Settings.Toml.Quoted

/-!
Scalar values of TOML: strings, booleans, integers, floating point numbers, dates and times.
-/
namespace MockServer.Toml

open MockServer.Number

/-- The digits of a number, after `done` (in reverse). A single underscore may stand between two
of them. -/
def digitsAfter? (digit? : Char → Option Nat) (done : List Nat) : List Char → Option (List Nat)
  | [] => if done.isEmpty then none else some done.reverse
  | '_' :: c :: rest =>
    match digit? c with
    | some d => if done.isEmpty then none else digitsAfter? digit? (d :: done) rest
    | none => none
  | c :: rest =>
    match digit? c with
    | some d => digitsAfter? digit? (d :: done) rest
    | none => none

def octalDigit? (c : Char) : Option Nat := (digit? c).filter (· < 8)
def binaryDigit? (c : Char) : Option Nat := (digit? c).filter (· < 2)

/-- A natural number in a base, below `2 ^ 63`. -/
def based? (base : Nat) (digit? : Char → Option Nat) (s : List Char) : Option ConfigValue :=
  match digitsAfter? digit? [] s with
  | some digits =>
    let n := ofDigits base digits
    if n < 0x8000000000000000 then some (.int n) else none
  | none => none

/-- The digits before the point. Only a single zero may lead. -/
def whole? (s : List Char) : Option (List Nat) :=
  (digitsAfter? digit? [] s).filter fun digits => digits.length = 1 ∨ digits.head? ≠ some 0

/-- An integer of 64 bits with sign. -/
def integer? (negative : Bool) (s : List Char) : Option ConfigValue :=
  match whole? s with
  | some digits =>
    let n : Int := ofDigits 10 digits
    let n := if negative then -n else n
    if -0x8000000000000000 ≤ n ∧ n < 0x8000000000000000 then some (.int n) else none
  | none => none

/-- The exponent after its letter. -/
def exponent? (s : List Char) : Option Int :=
  let (negative, s) := signed s
  (digitsAfter? digit? [] s).map fun digits =>
    let e : Int := ofDigits 10 digits
    if negative then -e else e

/-- A finite number with a fraction, an exponent or both. -/
def floating? (negative : Bool) (s : List Char) : Option ConfigValue := do
  let mantissa := s.takeWhile fun c => c != 'e' && c != 'E'
  let e ← match s.dropWhile fun c => c != 'e' && c != 'E' with
    | [] => some 0
    | _ :: text => exponent? text
  let digits ← whole? (mantissa.takeWhile (· != '.'))
  let fraction ← match mantissa.dropWhile (· != '.') with
    | [] => some []
    | _ :: text => digitsAfter? digit? [] text
  let x := Binary64.ofDecimal negative (ofDigits 10 (digits ++ fraction)) (e - fraction.length)
  if x.isFinite then some (.real x) else none

/-- A number after its plus sign, if it has one. -/
def number? (s : List Char) : Option ConfigValue :=
  match s with
  | '0' :: 'x' :: rest => based? 16 hexDigit? rest
  | '0' :: 'o' :: rest => based? 8 octalDigit? rest
  | '0' :: 'b' :: rest => based? 2 binaryDigit? rest
  | _ =>
    let (negative, magnitude) := match s with
      | '-' :: rest => (true, rest)
      | _ => (false, s)
    if magnitude = "inf".toList then
      some (.real (if negative then Binary64.infinity.neg else Binary64.infinity))
    else if magnitude = "nan".toList then
      some (.real (if negative then Binary64.nan.neg else Binary64.nan))
    else if magnitude.any fun c => c == '.' || c == 'e' || c == 'E' then
      floating? negative magnitude
    else integer? negative magnitude

/-- A value written without quotes. -/
def word? (s : List Char) : Option ConfigValue :=
  if s = "true".toList then some (.bool true)
  else if s = "false".toList then some (.bool false)
  else match s with
    | '+' :: rest => number? rest
    | _ => number? s

/-- A scalar value and what follows it. A date or a time counts as its text. -/
def scalar? (s : List Char) : Option (ConfigValue × List Char) :=
  match s.takeWhile fun c => isBare c || c == '+' || c == '.' with
  | [] => (string? s).map fun (text, rest) => (.text text, rest)
  | word =>
    match DateTime.ofText? s with
    | some (d, rest) => some (.text (String.ofList d.text), rest)
    | none => (word? word).map (·, s.drop word.length)

end MockServer.Toml
