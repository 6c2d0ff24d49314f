/-!
Media types of request bodies, as far as it takes to tell JSON.
-/
namespace MockServer.Http.MediaType

/-- The characters of type names and parameters. -/
def isToken (c : Char) : Bool :=
  c.isAlphanum ||
    ['!', '#', '$', '%', '&', '\x27', '*', '+', '-', '.', '^', '_', '\x60', '|', '~'].contains c

/-- What must come next in the parameters. -/
inductive Parameter where
  | nameStart | name | valueStart | value | quotedStart | quoted | afterQuoted
  deriving DecidableEq, Repr

namespace Parameter

/-- Blanks may precede a name and follow a quoted value only. A quoted value is of printable ASCII,
and its first character may be a quote itself. -/
def step (p : Parameter) (c : Char) : Option Parameter :=
  let inQuotes : Bool := 31 < c.toNat && c.toNat < 127
  match p with
  | .nameStart => if c = ' ' then some .nameStart else if isToken c then some .name else none
  | .name => if c = '=' then some .valueStart else if isToken c then some .name else none
  | .valueStart =>
    if c = '"' then some .quotedStart else if isToken c then some .value else none
  | .value => if c = ';' then some .nameStart else if isToken c then some .value else none
  | .quotedStart => if inQuotes then some .quoted else none
  | .quoted => if c = '"' then some .afterQuoted else if inQuotes then some .quoted else none
  | .afterQuoted =>
    if c = ';' then some .nameStart else if c = ' ' then some .afterQuoted else none

/-- Whether the parameters may end here. -/
def complete : Parameter → Bool
  | .nameStart | .valueStart | .value | .afterQuoted => true
  | _ => false

/-- Whether a text is a list of parameters. -/
def accepts (s : List Char) : Bool :=
  match s.foldlM step .nameStart with
  | some p => p.complete
  | none => false

end Parameter

/-- The subtype before the last plus sign, and the suffix after it. A plus sign in front does not
count. -/
def splitSuffix (subtype : List Char) : List Char × Option (List Char) :=
  let after := subtype.reverse.takeWhile (· != '+')
  let before := (subtype.reverse.dropWhile (· != '+')).tail.reverse
  if before.isEmpty then (subtype, none) else (before, some after.reverse)

/-- Whether a content type is `application/json` or `application/*+json`, whatever its case and
parameters. -/
def isJson (contentType : String) : Bool :=
  let s := contentType.toList.map Char.toLower
  let type := s.takeWhile isToken
  match s.dropWhile isToken with
  | '/' :: rest =>
    let subtype := rest.takeWhile isToken
    let parameters := rest.dropWhile isToken
    let wellFormed :=
      !subtype.isEmpty && match parameters with
        | [] => true
        | c :: later => c == ';' && Parameter.accepts later
    let (name, suffix) := splitSuffix subtype
    wellFormed && type == "application".toList &&
      (name == "json".toList || suffix == some "json".toList)
  | _ => false

end MockServer.Http.MediaType
