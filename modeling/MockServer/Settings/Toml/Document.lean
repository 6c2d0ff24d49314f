import MockServer.Settings.Toml.Outline
import MockServer.Settings.Toml.Scalar

/-!
TOML documents: lines that open a table, add one to an array of tables or set a key.
-/
namespace MockServer.Toml

/-- Blanks, ends of lines and comments are skipped inside arrays. -/
def skipLines (s : List Char) : List Char :=
  match _h : skipBlanks s with
  | '\n' :: rest => skipLines rest
  | '#' :: rest => skipLines (rest.dropWhile isPlain)
  | rest => rest
termination_by s.length
decreasing_by
  all_goals
    have h1 := (List.dropWhile_sublist (fun c => c == ' ' || c == '\t') (l := s)).length_le
    have h2 := (List.dropWhile_sublist isPlain (l := rest)).length_le
    rw [skipBlanks] at _h
    rw [_h, List.length_cons] at h1
    omega

mutual

/-- A value, read in at most `fuel` steps, and what follows it. -/
def valueWithin? : Nat → List Char → Option (ConfigValue × List Char)
  | 0, _ => none
  | fuel + 1, s =>
    match s with
    | '[' :: rest => itemsWithin? fuel [] (skipLines rest)
    | '\x7b' :: rest =>
      match skipBlanks rest with
      | '\x7d' :: rest => some (.table [], rest)
      | rest => membersWithin? fuel [] rest
    | _ => scalar? s

/-- The rest of an array after `done` (in reverse). A comma may stand after the last item. -/
def itemsWithin? : Nat → List ConfigValue → List Char → Option (ConfigValue × List Char)
  | 0, _, _ => none
  | fuel + 1, done, s =>
    match s with
    | ']' :: rest => some (.list done.reverse, rest)
    | _ => do
      let (v, rest) ← valueWithin? fuel s
      match skipLines rest with
      | ',' :: rest => itemsWithin? fuel (v :: done) (skipLines rest)
      | ']' :: rest => some (.list (v :: done).reverse, rest)
      | _ => none

/-- The rest of an inline table, which stands on one line. -/
def membersWithin? : Nat → Outline.Members → List Char → Option (ConfigValue × List Char)
  | 0, _, _ => none
  | fuel + 1, members, s => do
    let (key, rest) ← assigned? s
    let (v, rest) ← valueWithin? fuel rest
    let members ← Outline.set? v key members
    match skipBlanks rest with
    | ',' :: rest => membersWithin? fuel members (skipBlanks rest)
    | '\x7d' :: rest => some (Outline.finished members, rest)
    | _ => none

end

/-- A value and what follows it. Every step takes a character. -/
def value? (s : List Char) : Option (ConfigValue × List Char) := valueWithin? (s.length + 1) s

/-- What the lines so far have made, and the path of the table that keys are set in. -/
structure Document where
  members : Outline.Members := []
  table : Path := []

namespace Document

/-- One more line, without what ends it. -/
def line? (d : Document) (s : List Char) : Option (Document × List Char) :=
  match s with
  | [] | '\n' :: _ | '#' :: _ => some (d, s)
  | '[' :: '[' :: rest => do
    let (path, rest) ← key? (skipBlanks rest)
    match rest with
    | ']' :: ']' :: rest =>
      return (⟨← Outline.header? Outline.extendMember? path d.members, path⟩, rest)
    | _ => none
  | '[' :: rest => do
    let (path, rest) ← key? (skipBlanks rest)
    match rest with
    | ']' :: rest => return (⟨← Outline.header? Outline.openMember? path d.members, path⟩, rest)
    | _ => none
  | _ => do
    let (key, rest) ← assigned? s
    let (v, rest) ← value? rest
    return (⟨← Outline.reach? (Outline.set? v key) d.table d.members, d.table⟩, rest)

/-- What follows a comment, if there is one. -/
def afterComment : List Char → List Char
  | '#' :: rest => rest.dropWhile isPlain
  | s => s

/-- The document with at most `fuel` more lines. -/
def linesWithin? : Nat → Document → List Char → Option Document
  | 0, _, _ => none
  | fuel + 1, d, s => do
    let (d, rest) ← d.line? (skipBlanks s)
    match afterComment (skipBlanks rest) with
    | [] => some d
    | '\n' :: rest => linesWithin? fuel d rest
    | _ => none

end Document

/-- A line may also end with a carriage return before the line feed. -/
def unifyLineEnds : List Char → List Char
  | '\r' :: '\n' :: rest => '\n' :: unifyLineEnds rest
  | c :: rest => c :: unifyLineEnds rest
  | [] => []

/-- A byte order mark may stand at the start. -/
def withoutMark : List Char → List Char
  | '\uFEFF' :: rest => rest
  | s => s

/-- The table that a document describes. -/
def read? (s : List Char) : Option ConfigValue :=
  let s := unifyLineEnds (withoutMark s)
  (Document.linesWithin? (s.length + 1) {} s).map fun d => Outline.finished d.members

end MockServer.Toml
