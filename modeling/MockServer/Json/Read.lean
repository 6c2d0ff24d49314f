import MockServer.Json.Tree
import MockServer.Number.Digits

/-!
Reading JSON character by character, with the open containers on a stack. Each character is looked
at once, and nesting is not bounded here.
-/
namespace MockServer.Json

/-- A container whose next value is being read, with what it holds so far (in reverse). -/
inductive Frame where
  | items (done : List Tree)
  | member (done : List (Quoted × Tree)) (key : Quoted)

/-- The part of a number that is being read. -/
inductive NumberPart where
  | sign | zero | whole | point | fraction | mark | exponentSign | exponent
  deriving DecidableEq, Repr

/-- What must come next. A string is a key if it comes with the members before it; digits, pieces
and members are kept in reverse. -/
inductive Expected where
  | value
  | firstItem
  | afterItem (done : List Tree)
  | firstKey
  | nextKey (done : List (Quoted × Tree))
  | colon (done : List (Quoted × Tree)) (key : Quoted)
  | afterMember (done : List (Quoted × Tree))
  | quoted (keyAfter : Option (List (Quoted × Tree))) (pieces : Quoted)
  | escape (keyAfter : Option (List (Quoted × Tree))) (pieces : Quoted)
  | code (keyAfter : Option (List (Quoted × Tree))) (pieces : Quoted) (left : Nat) (unit : Nat)
  | number (part : NumberPart) (n : Numeral)
  | word (left : List Char) (value : Tree)
  | done (value : Tree)
  | trailing (value : Tree)
  | failed

structure Reader where
  stack : List Frame := []
  expected : Expected := .value

/-- The blanks of JSON. -/
def isBlank (c : Char) : Bool := c == ' ' || c == '\t' || c == '\n' || c == '\r'

namespace NumberPart

/-- Whether a number may end here. -/
def complete : NumberPart → Bool
  | .zero | .whole | .fraction | .exponent => true
  | _ => false

end NumberPart

namespace Numeral

/-- One more digit of the part that is being read. -/
def push (n : Numeral) (d : Nat) : NumberPart → Numeral
  | .point | .fraction => { n with fraction := some (d :: n.fraction.getD []) }
  | .mark | .exponentSign | .exponent =>
    let (negative, digits) := n.exponent.getD (false, [])
    { n with exponent := some (negative, d :: digits) }
  | _ => { n with whole := d :: n.whole }

/-- The part after a digit. A whole part that starts with zero has no second digit. -/
def partAfterDigit? (d : Nat) : NumberPart → Option NumberPart
  | .sign => some (if d = 0 then .zero else .whole)
  | .zero => none
  | .whole => some .whole
  | .point | .fraction => some .fraction
  | .mark | .exponentSign | .exponent => some .exponent

/-- The number with one more character, or `none` if the character does not belong to it. -/
def extend? (part : NumberPart) (n : Numeral) (c : Char) : Option (NumberPart × Numeral) :=
  match Number.digit? c with
  | some d => (partAfterDigit? d part).map fun next => (next, n.push d part)
  | none =>
    match part with
    | .zero | .whole =>
      if c = '.' then some (.point, n)
      else if c = 'e' ∨ c = 'E' then some (.mark, n)
      else none
    | .fraction => if c = 'e' ∨ c = 'E' then some (.mark, n) else none
    | .mark =>
      if c = '-' then some (.exponentSign, { n with exponent := some (true, []) })
      else if c = '+' then some (.exponentSign, n)
      else none
    | _ => none

/-- The digits of every part in written order. -/
def finished (n : Numeral) : Numeral :=
  { n with
    whole := n.whole.reverse
    fraction := n.fraction.map List.reverse
    exponent := n.exponent.map fun (negative, digits) => (negative, digits.reverse) }

end Numeral

namespace Reader

def fail : Reader := ⟨[], .failed⟩

/-- A finished value goes to the innermost open container. -/
def finish (stack : List Frame) (v : Tree) : Reader :=
  match stack with
  | [] => ⟨[], .done v⟩
  | .items done :: rest => ⟨rest, .afterItem (v :: done)⟩
  | .member done key :: rest => ⟨rest, .afterMember ((key, v) :: done)⟩

/-- A finished string is a value, or a key that a colon must follow. -/
def finishQuoted (stack : List Frame) (keyAfter : Option (List (Quoted × Tree)))
    (pieces : Quoted) : Reader :=
  match keyAfter with
  | some done => ⟨stack, .colon done pieces.reverse⟩
  | none => finish stack (.string pieces.reverse)

/-- The first character of a value. -/
def startValue (stack : List Frame) (c : Char) : Reader :=
  if c = '\x7b' then ⟨stack, .firstKey⟩
  else if c = '[' then ⟨stack, .firstItem⟩
  else if c = '"' then ⟨stack, .quoted none []⟩
  else if c = '-' then ⟨stack, .number .sign { negative := true }⟩
  else if c = 't' then ⟨stack, .word ['r', 'u', 'e'] (.bool true)⟩
  else if c = 'f' then ⟨stack, .word ['a', 'l', 's', 'e'] (.bool false)⟩
  else if c = 'n' then ⟨stack, .word ['u', 'l', 'l'] .null⟩
  else match Number.digit? c with
    | some d => ⟨stack, .number (if d = 0 then .zero else .whole) { whole := [d] }⟩
    | none => fail

/-- A character after a value is finished: a separator, the close of the container, or text after
the outermost value. -/
def afterValue (r : Reader) (c : Char) : Reader :=
  match r.expected with
  | .afterItem done =>
    if isBlank c then r
    else if c = ',' then ⟨.items done :: r.stack, .value⟩
    else if c = ']' then finish r.stack (.array done.reverse)
    else fail
  | .afterMember done =>
    if isBlank c then r
    else if c = ',' then ⟨r.stack, .nextKey done⟩
    else if c = '\x7d' then finish r.stack (.object done.reverse)
    else fail
  | .done v => if isBlank c then r else ⟨[], .trailing v⟩
  | _ => r

/-- The character that an escaped letter stands for. -/
def escaped? (c : Char) : Option Char :=
  if c = '"' ∨ c = '\\' ∨ c = '/' then some c
  else if c = 'b' then some '\x08'
  else if c = 'f' then some '\x0c'
  else if c = 'n' then some '\n'
  else if c = 'r' then some '\r'
  else if c = 't' then some '\t'
  else none

def stepChar (r : Reader) (c : Char) : Reader :=
  match r.expected with
  | .value => if isBlank c then r else startValue r.stack c
  | .firstItem =>
    if isBlank c then r
    else if c = ']' then finish r.stack (.array [])
    else startValue (.items [] :: r.stack) c
  | .firstKey =>
    if isBlank c then r
    else if c = '"' then ⟨r.stack, .quoted (some []) []⟩
    else if c = '\x7d' then finish r.stack (.object [])
    else fail
  | .nextKey done =>
    if isBlank c then r
    else if c = '"' then ⟨r.stack, .quoted (some done) []⟩
    else fail
  | .colon done key =>
    if isBlank c then r
    else if c = ':' then ⟨.member done key :: r.stack, .value⟩
    else fail
  | .quoted keyAfter pieces =>
    if c = '"' then finishQuoted r.stack keyAfter pieces
    else if c = '\\' then ⟨r.stack, .escape keyAfter pieces⟩
    else if c.toNat < 0x20 then fail
    else ⟨r.stack, .quoted keyAfter (.char c :: pieces)⟩
  | .escape keyAfter pieces =>
    if c = 'u' then ⟨r.stack, .code keyAfter pieces 4 0⟩
    else match escaped? c with
      | some e => ⟨r.stack, .quoted keyAfter (.char e :: pieces)⟩
      | none => fail
  | .code keyAfter pieces left unit =>
    match Number.hexDigit? c with
    | none => fail
    | some d =>
      let unit := unit * 16 + d
      if left ≤ 1 then ⟨r.stack, .quoted keyAfter (.unit unit :: pieces)⟩
      else ⟨r.stack, .code keyAfter pieces (left - 1) unit⟩
  | .number part n =>
    match n.extend? part c with
    | some (next, n) => ⟨r.stack, .number next n⟩
    | none => if part.complete then afterValue (finish r.stack (.number n.finished)) c else fail
  | .word left v =>
    match left with
    | [] => fail
    | [e] => if c = e then finish r.stack v else fail
    | e :: rest => if c = e then ⟨r.stack, .word rest v⟩ else fail
  | .afterItem _ | .afterMember _ | .done _ => afterValue r c
  | .trailing _ | .failed => r

/-- Bytes that are no character may stand in strings only, and after the outermost value. -/
def step (r : Reader) (c : Option Char) : Reader :=
  match c with
  | some c => stepChar r c
  | none =>
    match r.expected with
    | .quoted keyAfter pieces => ⟨r.stack, .quoted keyAfter (.bad :: pieces)⟩
    | .done v => ⟨[], .trailing v⟩
    | .trailing v => ⟨[], .trailing v⟩
    | _ => fail

/-- The end of the input ends a number. -/
def close (r : Reader) : Reader :=
  match r.expected with
  | .number part n => if part.complete then finish r.stack (.number n.finished) else fail
  | _ => r

end Reader

def run (input : Input) : Reader := (input.foldl Reader.step {}).close

namespace Tree

/-- The value that an input consists of, blanks around it aside. -/
def read? (input : Input) : Option Tree :=
  match (run input).expected with
  | .done v => some v
  | _ => none

/-- The value that an input starts with, whatever comes after it. -/
def readFirst? (input : Input) : Option Tree :=
  match (run input).expected with
  | .done v | .trailing v => some v
  | _ => none

end Tree
end MockServer.Json
