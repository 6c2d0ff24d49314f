import MockServer.Interface.Bracket
import MockServer.Interface.Declaration

/-!
Entries of an interface body. A line that starts like a field may leave brackets open over the
lines that follow; every other line stands alone. Each entry is then cut at semicolons.
-/
namespace MockServer.Interface

open MockServer.Text

/-- The lines of a text, each with its newline. -/
def linesAfter (line : List Char) (done : List (List Char)) : List Char → List (List Char)
  | [] => (if line.isEmpty then done else line.reverse :: done).reverse
  | c :: rest =>
    if c = '\n' then linesAfter [] ((c :: line).reverse :: done) rest
    else linesAfter (c :: line) done rest

/-- The concatenation of the lines is the text, and none is empty. -/
def linesOf (s : List Char) : List (List Char) := linesAfter [] [] s

/-- A line without its end, which is a newline or a carriage return and a newline. -/
def withoutLineEnd (line : List Char) : List Char :=
  match line.reverse with
  | '\n' :: '\r' :: rest => rest.reverse
  | '\n' :: rest => rest.reverse
  | _ => line

def cutAtSemicolons : List Char → List (List Char) := cutOutsideBrackets (· == ';')

/-- Lines whose brackets are still open (the last line first), and how many are. -/
structure OpenGroup where
  lines : List (List Char) := []
  depth : Nat := 0

namespace OpenGroup

def text (g : OpenGroup) : List Char := g.lines.reverse.flatten

/-- One more line. The group goes on while brackets are open and its first line starts like a
field; else it is finished, and its entries come with an empty group. A group with lines has a
first line that passed the test. -/
def add (g : OpenGroup) (line : List Char) : OpenGroup × List (List Char) :=
  let grown : OpenGroup := ⟨line :: g.lines, depthOf g.depth line⟩
  if 0 < grown.depth && (!g.lines.isEmpty || Declaration.opens line) then (grown, [])
  else ({}, cutAtSemicolons grown.text)

/-- A group that is still open at the end of the body is read line by line. -/
def leftover (g : OpenGroup) : List (List Char) :=
  (linesOf g.text).flatMap fun line => cutAtSemicolons (withoutLineEnd line)

end OpenGroup

/-- The group that is open after the lines, and the entries finished so far (in reverse). -/
def scanLines (lines : List (List Char)) : OpenGroup × List (List Char) :=
  lines.foldl
    (fun (g, done) line => let (g, entries) := g.add line; (g, entries.reverse ++ done)) ({}, [])

/-- The entries of a body in source order. -/
def entries (body : List Char) : List (List Char) :=
  let (g, done) := scanLines (linesOf body)
  done.reverse ++ g.leftover

end MockServer.Interface
