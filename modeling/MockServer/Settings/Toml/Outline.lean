import MockServer.Settings.ConfigValue
import MockServer.Settings.Toml.Quoted

/-!
Outlines of TOML tables: what the lines of a document have made of them so far. An outline remembers
how its tables came into being, because that decides what later lines may do with them.
-/
namespace MockServer.Toml

/-- How a table came into being. -/
inductive Origin where
  /-- A header names a table inside it. -/
  | passed
  /-- A header names it. -/
  | opened
  /-- A dotted key leads through it. -/
  | dotted
  deriving DecidableEq, Repr

inductive Outline where
  | value (v : ConfigValue)
  | table (origin : Origin) (members : List (String × Outline))
  /-- An array of tables. Only the last of them can still change. -/
  | tables (earlier : List ConfigValue) (last : List (String × Outline))

namespace Outline

abbrev Members := List (String × Outline)

mutual

/-- The value of an outline as it stands. -/
def finish : Outline → ConfigValue
  | .value v => v
  | .table _ members => .table (finishMembers members)
  | .tables earlier last => .list (earlier ++ [.table (finishMembers last)])

def finishMembers : Members → List (String × ConfigValue)
  | [] => []
  | (key, o) :: rest => (key, finish o) :: finishMembers rest

end

/-- The table of some members. -/
def finished (members : Members) : ConfigValue := .table (finishMembers members)

/-- Changes the members of a table, or those of the last table of an array. -/
def within? (change : Members → Option Members) : Outline → Option Outline
  | .value _ => none
  | .table origin members => (change members).map (.table origin)
  | .tables earlier last => (change last).map (.tables earlier)

/-- Changes the members of the table that a header names. The way there leads through tables that
headers name, and makes those that are missing, but not through values and dotted keys. -/
def reach? (change : Members → Option Members) : Path → Members → Option Members
  | [], members => change members
  | key :: path, members =>
    match (members.lookup key).getD (.table .passed []) with
    | .table .dotted _ => none
    | o => (o.within? fun inside => reach? change path inside).map fun o =>
      ConfigValue.put key o members

/-- A member becomes a table that a header names. That can happen once, and not to a value, an array
or a table made by dotted keys. -/
def openMember? (key : String) (members : Members) : Option Members :=
  match members.lookup key with
  | none => some (ConfigValue.put key (.table .opened []) members)
  | some (.table .passed inside) => some (ConfigValue.put key (.table .opened inside) members)
  | some _ => none

/-- A member becomes an array of one table, or an array of tables gets one more. -/
def extendMember? (key : String) (members : Members) : Option Members :=
  match members.lookup key with
  | none => some (ConfigValue.put key (.tables [] []) members)
  | some (.tables earlier last) =>
    some (ConfigValue.put key (.tables (earlier ++ [finished last]) []) members)
  | some _ => none

/-- What a header does: all but the last part of its path lead to a table, whose member the last
part names. -/
def header? (change : String → Members → Option Members) (path : Path) (members : Members) :
    Option Members := do
  reach? (change (← path.getLast?)) path.dropLast members

/-- Sets a key, which can be done once. A dotted key leads only through tables made by dotted
keys. -/
def set? (v : ConfigValue) : Path → Members → Option Members
  | [], _ => none
  | [key], members =>
    match members.lookup key with
    | none => some (ConfigValue.put key (.value v) members)
    | some _ => none
  | key :: path, members =>
    match (members.lookup key).getD (.table .dotted []) with
    | .table .dotted inside =>
      (set? v path inside).map fun inside => ConfigValue.put key (.table .dotted inside) members
    | _ => none

end Outline
end MockServer.Toml
