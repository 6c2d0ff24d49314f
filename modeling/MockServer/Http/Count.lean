import MockServer.Json.Decode
import MockServer.Text.Blank

/-!
How many records a client asks for: in the query as text, in a body as a JSON value. Either way no
count is different from a count of one, and a count is from 1 to 100.
-/
namespace MockServer.Http.Count

open MockServer.Text

def maxCount : Int := 100

/-- A count within the bounds. -/
def check? (n : Int) : Option Nat := if 1 ≤ n ∧ n ≤ maxCount then some n.toNat else none

/-- The count of a query, blank or missing for none. The outer option is empty if it is refused. -/
def ofText? (raw : Option (List Char)) : Option (Option Nat) :=
  match raw.map trim with
  | none | some [] => some none
  | some s => ((Number.int64? s).bind check?).map some

/-- The integer of a number: an integer of 64 bits with sign, or a value without fraction, which is
brought into the range of such integers. -/
def integer? (n : Json.Numeral) : Option Int :=
  match n.int64? with
  | some m => some m
  | none =>
    match n.binary64? with
    | some x =>
      if x.isIntegral then
        some (max (-0x8000000000000000) (min x.truncate 0x7FFFFFFFFFFFFFFF))
      else none
    | none => none

/-- The count of a body, null or missing for none. The outer option is empty if it is refused. -/
def ofJson? (raw : Option Json.Tree) : Option (Option Nat) :=
  match raw with
  | none | some .null => some none
  | some (.number n) => ((integer? n).bind check?).map some
  | some _ => none

/-- The record that a body may hold. A count of any kind is kept, to be judged by itself. -/
def bodyDecoder : Json.Decoder (Option Json.Tree) := fun room t => do
  let r ← Json.Record.read ["count"] room t
  r.optional "count" Json.Decoder.any

end MockServer.Http.Count
