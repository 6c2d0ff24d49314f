import MockServer.Number.Digits
import MockServer.Text.Utf8

/-!
Percent-encoded text in paths and queries.
-/
namespace MockServer.Text.Percent

/-- Bytes with their percent escapes resolved, after `done` (in reverse). A percent sign without two
hexadecimal digits after it stands for itself. -/
def decodeAfter (done : List UInt8) : List Char → List UInt8
  | [] => done.reverse
  | '%' :: a :: b :: rest =>
    match Number.hexDigit? a, Number.hexDigit? b with
    | some x, some y => decodeAfter (UInt8.ofNat (x * 16 + y) :: done) rest
    | _, _ => decodeAfter (UInt8.ofNat '%'.toNat :: done) (a :: b :: rest)
  | c :: rest => decodeAfter ((Utf8.encodeChar c).reverse ++ done) rest

def decode (s : List Char) : List UInt8 := decodeAfter [] s

/-- A name or value of a form: a plus sign is a blank, and bytes that are no text are replaced. -/
def decodeForm (s : List Char) : List Char :=
  Utf8.lenient (decode (s.map fun c => if c = '+' then ' ' else c))

/-- A text cut at every occurrence of a character. -/
def cutAt (separator : Char) (s : List Char) : List (List Char) :=
  (s.foldr (fun c (piece, later) =>
    if c = separator then ([], piece :: later) else (c :: piece, later)) ([], [])) |> fun
      | (piece, later) => piece :: later

/-- The names and values of a query. Empty parts are dropped, and a part without an equals sign has
an empty value. -/
def formPairs (query : List Char) : List (List Char × List Char) :=
  ((cutAt '&' query).filter (!·.isEmpty)).map fun part =>
    (decodeForm (part.takeWhile (· != '=')), decodeForm (part.dropWhile (· != '=')).tail)

end MockServer.Text.Percent
