import MockServer.Time.Instant

/-!
Projects: mock endpoints with an interface text and an expiry, and the requests that make and change
them.
-/
namespace MockServer

/-- The method that a project's endpoint is meant for. -/
inductive Method where
  | get | post | put | delete | patch
  deriving DecidableEq, Repr

structure Project where
  id : String
  name : String
  description : Option String
  interfaceCode : String
  endpoint : String
  url : String
  method : Method
  expectedStatusCodes : List UInt16
  expiresAt : Time.Instant
  createdAt : Time.Instant
  updatedAt : Time.Instant
  isActive : Bool
  deriving DecidableEq, Repr

namespace Project

/-- A project is live while it is active and strictly before its expiry. -/
def isLive (p : Project) (now : Time.Instant) : Bool := p.isActive && now.before p.expiresAt

end Project

/-- What a client gives for a new project. Texts that are not given are empty. -/
structure Draft where
  name : String := ""
  description : Option String := none
  interfaceCode : String := ""
  method : Option Method := none
  expectedStatusCodes : Option (List UInt16) := none
  expirationHours : Option UInt64 := none
  deriving DecidableEq, Repr

/-- A partial change of a project: what is not given stays. Given hours count from the change. -/
structure Revision where
  name : Option String := none
  description : Option String := none
  interfaceCode : Option String := none
  method : Option Method := none
  expectedStatusCodes : Option (List UInt16) := none
  expirationHours : Option UInt64 := none
  deriving DecidableEq, Repr

end MockServer
