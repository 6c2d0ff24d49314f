import MockServer.Interface.Json
import MockServer.Interface.Parse

/-!
Interface texts of models. Object literals may be laid out in any way that blanks allow, each in its
own.
-/
namespace MockServer

open MockServer.Text

/-- The blanks inside the braces of an object literal: before each member and before the close. -/
structure Gap where
  member : List Char
  close : List Char
  member_blank : member.all isBlank = true
  close_blank : close.all isBlank = true

namespace Gap

/-- All members on the line of the opening brace. -/
def oneLine : Gap := ⟨[' '], [' '], rfl, rfl⟩

/-- Each member on its own line, and the closing brace too. -/
def perLine (indent : Nat) : Gap where
  member := '\n' :: List.replicate (indent + 2) ' '
  close := '\n' :: List.replicate indent ' '
  member_blank := by rw [List.all_cons, List.all_replicate]; rfl
  close_blank := by rw [List.all_cons, List.all_replicate]; cases indent <;> rfl

end Gap

namespace Interface

/-- The text between the name and the type of a declaration. -/
def mark (isOptional : Bool) : List Char := if isOptional then ['?', ':', ' '] else [':', ' ']

/-- A declaration as it is written, without a semicolon. -/
def Declaration.text (d : Declaration) : List Char := d.name ++ (mark d.isOptional ++ d.type)

/-- The word of a type without members. A string is written as its format if it has one. -/
def typeWord (kind : Kind) (format : Option StringFormat) : List Char :=
  match kind, format with
  | .number, _ => "number".toList
  | .boolean, _ => "boolean".toList
  | .date, _ => "Date".toList
  | .string, some f => f.text.toList
  | .string, none => "string".toList
  | .object, _ => ['{', '}']

def arrayText (isArray : Bool) : List Char := if isArray then ['[', ']'] else []

/-- The text between the braces of a literal, where every member ends in a semicolon. -/
def literalInside (gap : Gap) (ds : List Declaration) : List Char :=
  ds.flatMap (fun d => gap.member ++ (d.text ++ [';'])) ++ gap.close

def literalText (gap : Gap) (ds : List Declaration) : List Char :=
  '{' :: (literalInside gap ds ++ ['}'])

variable (layout : List String → Gap)

mutual

/-- The type of a field without the brackets of an array. The path to a field, its own name first,
selects the layout of its literal. -/
def typeText (path : List String) : FieldType → List Char
  | ⟨.object, _, _, _, some fields⟩ => literalText (layout path) (declarations path fields)
  | ⟨kind, _, _, format, _⟩ => typeWord kind format

/-- The declarations of fields in their order. -/
def declarations (path : List String) : List (String × FieldType) → List Declaration
  | [] => []
  | (name, t) :: rest =>
    ⟨name.toList, t.isOptional, typeText (name :: path) t ++ arrayText t.isArray⟩ ::
      declarations path rest

end

/-- A line for each declaration. -/
def linesText (ds : List Declaration) : List Char := ds.flatMap fun d => d.text ++ [';', '\n']

/-- The header line in front of its brace. -/
def beforeBrace (name : List Char) : List Char := "interface ".toList ++ (name ++ [' '])

def headerText (name : List Char) : List Char := beforeBrace name ++ ['\x7b']

/-- The text of a model: the header, its declarations, and the closing brace. -/
def render (i : Interface) : String :=
  String.ofList (headerText i.name.toList ++
    '\n' :: (linesText (declarations layout [] i.fields) ++ ['\x7d']))

end Interface
end MockServer
