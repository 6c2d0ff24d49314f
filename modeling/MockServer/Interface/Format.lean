import MockServer.Interface.Model
import MockServer.Text.Search

/-!
String formats by keyword: the first rule with a keyword in the field's name or type decides.
-/
namespace MockServer.StringFormat

open MockServer.Text

/-- The order counts: a `companyId` is a company and no identifier. The keyword `id` is broad and
also found in names such as `video`. -/
def rules : List (StringFormat × List (List Char)) :=
  [(.email, ["email".toList]),
   (.url, ["url".toList, "uri".toList]),
   (.phone, ["phone".toList]),
   (.name, ["name".toList]),
   (.address, ["address".toList]),
   (.company, ["company".toList]),
   (.uuid, ["uuid".toList, "id".toList])]

/-- Keywords are searched for in the name, a blank and the type, whatever the case. -/
def infer? (field type : List Char) : Option StringFormat :=
  let text := foldText (field ++ ' ' :: type)
  (rules.find? fun rule => rule.2.any (contains · text)).map (·.1)

end MockServer.StringFormat
