import MockServer.Interface.Parse
import MockServer.Mock.Generate
import MockServer.Project.Basic
import MockServer.Project.Error

/-!
The registry of projects. Every operation is a function of the stored entries and of the clock at
the moment it runs; what expires or is deactivated is hidden at once and removed later.
-/
namespace MockServer

open MockServer.Time

/-- Stored projects by id, in the order of their arrival. -/
structure Registry where
  entries : List (String × Project) := []
  deriving DecidableEq, Repr

/-- Counts of stored projects. What is not live counts as expired. -/
structure Stats where
  total : Nat
  active : Nat
  expired : Nat
  deriving DecidableEq, Repr

def checkText (s : String) : Except ProjectError Unit :=
  if Text.isBlankText s then .error .blankText else .ok ()

def checkHours (hours : Option UInt64) : Except ProjectError Unit :=
  if hours = some 0 then .error .zeroHours else .ok ()

namespace Draft

/-- The project of a draft, with a fresh id and the clock at this moment. Nothing is stored yet. -/
def prepare (d : Draft) (settings : ProjectSettings) (now : Instant) (id : String) :
    Except ProjectError Project := do
  checkText d.name
  checkText d.interfaceCode
  checkHours d.expirationHours
  let endpoint := "/api/mock/" ++ id
  let base := (settings.baseUrl.toList.reverse.dropWhile (· == '/')).reverse
  return {
    id
    name := d.name
    description := d.description
    interfaceCode := d.interfaceCode
    endpoint
    url := String.ofList base ++ endpoint
    method := d.method.getD .get
    expectedStatusCodes := d.expectedStatusCodes.getD [200]
    expiresAt := now.addHours (d.expirationHours.getD settings.defaultExpirationHours)
    createdAt := now
    updatedAt := now
    isActive := true }

end Draft

namespace Revision

/-- A revision is checked before the project is looked up. -/
def check (u : Revision) : Except ProjectError Unit := do
  if let some name := u.name then checkText name
  if let some code := u.interfaceCode then checkText code
  checkHours u.expirationHours

/-- The project with the given fields replaced. A description can be set but not removed. -/
def apply (u : Revision) (now : Instant) (p : Project) : Project :=
  { p with
    name := u.name.getD p.name
    description := u.description.or p.description
    interfaceCode := u.interfaceCode.getD p.interfaceCode
    method := u.method.getD p.method
    expectedStatusCodes := u.expectedStatusCodes.getD p.expectedStatusCodes
    expiresAt := (u.expirationHours.map now.addHours).getD p.expiresAt
    updatedAt := now }

end Revision

namespace Registry

def find? (r : Registry) (id : String) : Option Project := r.entries.lookup id

/-- The entries of projects that are live at an instant. -/
def live (r : Registry) (now : Instant) : List Project :=
  (r.entries.map (·.2)).filter (·.isLive now)

/-- An entry at the end, or in place of one with the same id. -/
def insert (r : Registry) (id : String) (p : Project) : Registry :=
  if (r.find? id).isSome then
    ⟨r.entries.map fun e => if e.1 = id then (id, p) else e⟩
  else ⟨r.entries ++ [(id, p)]⟩

/-- The entry of an id changed by a function, if there is one. -/
def modify (r : Registry) (id : String) (f : Project → Project) : Registry :=
  ⟨r.entries.map fun e => if e.1 = id then (e.1, f e.2) else e⟩

/-- A prepared project is stored unless as many projects as allowed were live when it was
prepared. -/
def accept (r : Registry) (settings : ProjectSettings) (p : Project) :
    Except ProjectError Registry :=
  let live := (r.live p.createdAt).length
  if settings.maxProjects.toNat ≤ live then .error (.limitReached live)
  else .ok (r.insert p.id p)

/-- A new project and the registry with it. -/
def create (r : Registry) (settings : ProjectSettings) (now : Instant) (id : String) (d : Draft) :
    Except ProjectError (Project × Registry) := do
  let p ← d.prepare settings now id
  let r ← r.accept settings p
  return (p, r)

/-- A live project by its id. -/
def get? (r : Registry) (now : Instant) (id : String) : Option Project :=
  (r.find? id).filter (·.isLive now)

/-- A revision applied to an active project, which may have expired. Without one there is nothing
to change. -/
def update (r : Registry) (now : Instant) (id : String) (u : Revision) :
    Except ProjectError (Option Project × Registry) := do
  u.check
  match (r.find? id).filter (·.isActive) with
  | none => return (none, r)
  | some p => return (some (u.apply now p), r.modify id (u.apply now))

/-- A stored project is made inactive, whether it was active or not. Tells whether there is one. -/
def deactivate (r : Registry) (now : Instant) (id : String) : Bool × Registry :=
  if (r.find? id).isSome then
    (true, r.modify id fun p => { p with isActive := false, updatedAt := now })
  else (false, r)

/-- The model of a live project's interface. -/
def parsedInterface (r : Registry) (now : Instant) (id : String) :
    Except ProjectError Interface :=
  match r.get? now id with
  | some p => .ok (Interface.parse p.interfaceCode)
  | none => .error .notFound

/-- Mock data of a live project's interface. -/
def mockData [Mock.Phrasebook] (r : Registry) (generator : GeneratorSettings) (now : Instant)
    (id : String) (count : Option Nat) : Random.Draw (Except ProjectError Mock.Data) :=
  match r.parsedInterface now id with
  | .error e => pure (.error e)
  | .ok i => do return .ok (← Mock.data generator now i count)

/-- Live projects, the oldest first; those created at the same instant in the order of arrival. -/
def list (r : Registry) (now : Instant) : List Project :=
  (r.live now).mergeSort fun p q => p.createdAt.le q.createdAt

/-- Projects strictly past their expiry are removed, active or not. Tells how many there were. -/
def cleanup (r : Registry) (now : Instant) : Nat × Registry :=
  let kept := r.entries.filter fun e => now.le e.2.expiresAt
  (r.entries.length - kept.length, ⟨kept⟩)

def stats (r : Registry) (now : Instant) : Stats :=
  let active := (r.live now).length
  { total := r.entries.length, active, expired := r.entries.length - active }

end Registry
end MockServer
