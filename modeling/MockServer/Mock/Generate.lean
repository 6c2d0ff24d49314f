import MockServer.Mock.Sample
import MockServer.Mock.Value
import MockServer.Settings.Basic

/-!
Generation of mock data from a model. Every random choice is drawn from the words of the caller, in
the order of the fields, and the clock is read once.
-/
namespace MockServer.Mock

open MockServer.Random MockServer.Time

/-- The window of generated dates: the 365 days before the clock. -/
def recentSeconds : Nat := 365 * 24 * 60 * 60

/-- A text of a format, an identifier, or one to five words. -/
def text [Phrasebook] (format : Option StringFormat) : Draw Value :=
  match format with
  | some .uuid => do return .uuid (← Uuid.draw)
  | some f => do return .sample f (← Phrasebook.text f)
  | none => do
    let n ← between 1 5
    return .words (← times n Phrasebook.word)

/-- A value of a kind that has no parts. An object without known members is empty. -/
def scalar [Phrasebook] (now : Instant) (kind : Kind) (format : Option StringFormat) : Draw Value :=
  match kind with
  | .string => text format
  | .number => do return .number (← between 1 1000)
  | .boolean => do return .boolean (← chance Number.Binary64.half)
  | .date => do return .date (now.addSeconds (-(← below recentSeconds : Nat)))
  | .object => pure (.object [])

/-- As many values as an array has, which is drawn first. -/
def repeated (s : GeneratorSettings) (element : Draw Value) : Draw Value := do
  let n ← between 1 s.arrayLimit
  return .array (← times n element)

mutual

/-- One value of a field, as if it were no array. Members count only for objects. -/
def element [Phrasebook] (s : GeneratorSettings) (now : Instant) : FieldType → Draw Value
  | ⟨.object, _, _, _, some fields⟩ => do return .object (← members s now fields)
  | ⟨kind, _, _, format, _⟩ => scalar now kind format

/-- The members of a record in declared order. An optional one is left out by its own draw. -/
def members [Phrasebook] (s : GeneratorSettings) (now : Instant) :
    List (String × FieldType) → Draw (List (String × Value))
  | [] => pure []
  | (name, t) :: rest => do
    let omitted ← if t.isOptional then chance s.omitProbability else pure false
    if omitted then members s now rest
    else
      let v ← if t.isArray then repeated s (element s now t) else element s now t
      return (name, v) :: (← members s now rest)

end

/-- The value of a field, which is an array if the field is one. -/
def value [Phrasebook] (s : GeneratorSettings) (now : Instant) (t : FieldType) : Draw Value :=
  if t.isArray then repeated s (element s now t) else element s now t

/-- One record of an interface. -/
def record [Phrasebook] (s : GeneratorSettings) (now : Instant) (i : Interface) : Draw Value := do
  return .object (← members s now i.fields)

/-- Independent records of an interface. -/
def records [Phrasebook] (s : GeneratorSettings) (now : Instant) (i : Interface) (n : Nat) :
    Draw (List Value) := times n (record s now i)

/-- A single record, or a list of records if more than one is asked for. -/
def data [Phrasebook] (s : GeneratorSettings) (now : Instant) (i : Interface)
    (count : Option Nat) : Draw Data :=
  match count with
  | none => do return .one (← record s now i)
  | some n =>
    if 1 < n then do return .many (← records s now i n) else do return .one (← record s now i)

end MockServer.Mock
