import MockServer.Interface.Comment
import MockServer.Interface.Entry
import MockServer.Interface.Format

/-!
Interface texts read as models. Reading never fails: what is no field is skipped, and what is no
known type is a string.
-/
namespace MockServer

open MockServer.Text

namespace Kind

/-- An expression that opens with a brace is an object literal, whatever it contains; else the
first keyword in this order decides. -/
def classify (base : List Char) : Kind :=
  if base.head? = some '{' then .object
  else if contains "string".toList base then .string
  else if contains "number".toList base then .number
  else if contains "boolean".toList base then .boolean
  else if contains "Date".toList base then .date
  else if base.contains '{' then .object
  else .string

end Kind

namespace Interface

/-- The element type of an array type, which ends in a pair of square brackets. -/
def arrayElement? (type : List Char) : Option (List Char) :=
  match type.reverse with
  | ']' :: '[' :: element => some (trimEnd element.reverse)
  | _ => none

/-- The text between the first brace and its match. -/
def literalBody (base : List Char) : List Char :=
  insideBrace (base.dropWhile (· != '{')).tail

/-- The members of an object literal, which a comma, a semicolon or a newline separates. -/
def membersOf (base : List Char) : List Declaration :=
  (cutOutsideBrackets (fun c => c == ',' || c == ';' || c == '\n') (literalBody base)).filterMap
    fun piece => Declaration.read? (trim piece)

namespace Declaration

/-- The type expression without the blanks around it and one semicolon. -/
def cleanType (d : Declaration) : List Char := trimEnd (withoutSemicolon (trim d.type))

/-- The type expression without the brackets of an array. -/
def baseType (d : Declaration) : List Char := (arrayElement? d.cleanType).getD d.cleanType

end Declaration

private theorem length_arrayElement? {type element : List Char}
    (h : arrayElement? type = some element) :
    element.length ≤ type.length := by
  unfold arrayElement? at h
  split at h
  · rename_i e heq
    simp only [Option.some.injEq] at h
    subst h
    have hl := congrArg List.length heq
    simp only [List.length_reverse, List.length_cons] at hl
    have := trimEnd_length_le e.reverse
    simp only [List.length_reverse] at this
    omega
  · simp at h

theorem length_baseType_le (d : Declaration) : d.baseType.length ≤ d.type.length := by
  have hc : d.cleanType.length ≤ d.type.length :=
    Nat.le_trans (trimEnd_length_le _)
      (Nat.le_trans (Declaration.length_withoutSemicolon_le _) (trim_length_le _))
  unfold Declaration.baseType
  cases h : arrayElement? d.cleanType with
  | none => exact hc
  | some e => exact Nat.le_trans (length_arrayElement? h) hc

theorem length_literalBody_le (base : List Char) : (literalBody base).length ≤ base.length := by
  refine Nat.le_trans (length_insideBrace_le _) ?_
  rw [List.length_tail]
  exact Nat.le_trans (Nat.sub_le _ _) (List.dropWhile_sublist _).length_le

/-- Every nesting level uses up text. -/
theorem length_type_of_mem_members {base : List Char} {m : Declaration} (h : m ∈ membersOf base) :
    m.type.length < base.length := by
  obtain ⟨piece, hp, hm⟩ := List.mem_filterMap.1 h
  have h1 := Declaration.length_type_lt hm
  have h2 := trim_length_le piece
  have h3 := length_le_of_mem_cut hp
  have h4 := length_literalBody_le base
  omega

/-- The shape that a declaration gives to its field. The field's name counts only for the format
of a string. -/
def Declaration.fieldType (d : Declaration) : FieldType :=
  let isArray := (arrayElement? d.cleanType).isSome
  match Kind.classify d.baseType with
  | .object =>
    { kind := .object, isArray, isOptional := d.isOptional
      members := some (Fields.ofList ((membersOf d.baseType).attach.map fun ⟨m, _h⟩ =>
        (String.ofList m.name, m.fieldType))) }
  | .string =>
    { kind := .string, isArray, isOptional := d.isOptional
      format := StringFormat.infer? d.name d.cleanType }
  | kind => { kind, isArray, isOptional := d.isOptional }
termination_by d.type.length
decreasing_by
  exact Nat.lt_of_lt_of_le (length_type_of_mem_members _h) (length_baseType_le d)

/-- Later declarations of a name replace earlier ones. -/
def fieldsOf (declared : List Declaration) : Fields :=
  Fields.ofList (declared.map fun d => (String.ofList d.name, d.fieldType))

/-- The word after the keyword at the start of the text, if blanks separate the two. -/
def nameAfterKeyword? (s : List Char) : Option (List Char) :=
  if "interface".toList.isPrefixOf s then
    match s.drop 9 with
    | c :: rest =>
      if isBlank c then
        match (trimStart rest).takeWhile isWord with
        | [] => none
        | name => some name
      else none
    | [] => none
  else none

/-- The first name that follows the keyword anywhere in the header. -/
def declaredName? : List Char → Option (List Char)
  | [] => none
  | c :: rest =>
    match nameAfterKeyword? (c :: rest) with
    | some name => some name
    | none => declaredName? rest

/-- The body runs from the first brace of the header or, if the header has none, from a brace that
opens the rest, to the matching close. Without any brace the rest is the body. -/
def bodyOf (header rest : List Char) : List Char :=
  match header.dropWhile (· != '{') with
  | _ :: afterBrace => insideBrace (afterBrace ++ '\n' :: rest)
  | [] =>
    match trimStart rest with
    | '{' :: opened => insideBrace opened
    | opened => insideBrace opened

/-- The model of an interface text. The header is the first line that is not blank. -/
def ofText (source : List Char) : Interface :=
  let cleaned := trimStart (withoutComments source)
  let header := trim (cleaned.takeWhile (· != '\n'))
  let rest := (cleaned.dropWhile (· != '\n')).tail
  { name := ((declaredName? header).map String.ofList).getD unknownName
    fields := fieldsOf ((entries (bodyOf header rest)).filterMap fun entry =>
      Declaration.read? (trim entry)) }

def parse (source : String) : Interface := ofText source.toList

end Interface
end MockServer
