import MockServer.Interface.Json
import MockServer.Mock.Value
import MockServer.Project.Json
import MockServer.Project.Registry

/-!
Requests, and replies with the envelope that all replies about projects share.
-/
namespace MockServer.Http

/-- A request: its method, its path with the query, its headers by any name, and its body. -/
structure Request where
  method : String
  target : String
  headers : List (String × String) := []
  body : List UInt8 := []

/-- The first header of a name, which is given in small letters. -/
def Request.header? (r : Request) (name : String) : Option String :=
  (r.headers.find? fun h => h.1.toLower == name).map (·.2)

/-- Why a request is refused with an envelope. -/
inductive RequestError where
  | project (e : ProjectError)
  | count
  /-- A body is not declared to be JSON. -/
  | contentType
  /-- A body that should be JSON is too long. -/
  | bodyLength
  /-- A body is not the JSON of the record it should be. -/
  | body (fault : Json.Fault)
  deriving DecidableEq, Repr

namespace RequestError

/-- The text for bodies above the limit, with and without an envelope. -/
def lengthMessage : String := "Failed to buffer the request body: length limit exceeded"

def message : RequestError → String
  | .project e => e.message
  | .count => "Count must be between 1 and 100"
  | .contentType => "Invalid JSON body: Expected request with `Content-Type: application/json`"
  | .bodyLength => "Invalid JSON body: " ++ lengthMessage
  | .body fault => "Invalid JSON body: " ++ fault.message

def status : RequestError → Nat
  | .project e => e.status
  | _ => 400

end RequestError

/-- What an envelope carries. -/
inductive Payload where
  | nothing
  | project (p : Project)
  | projects (ps : List Project)
  | interface (i : Interface)
  | stats (s : Stats)
  | mock (id : String) (data : Mock.Data)

namespace Payload

def json? : Payload → Option Json.Value
  | .nothing => none
  | .project p => some p.json
  | .projects ps => some (.array (ps.map Project.json))
  | .interface i => some i.json
  | .stats s =>
    some (.object [("total", .int s.total), ("active", .int s.active), ("expired", .int s.expired)])
  | .mock _ data => some data.json

/-- Generated data comes with the project's id and the number of records. -/
def metadata? : Payload → Option Json.Value
  | .mock id data =>
    some (.object [("project_id", .string id), ("generated_count", .int data.count)])
  | _ => none

end Payload

/-- The common form of replies: what was asked for or an error, and the clock. -/
structure Envelope where
  result : Except RequestError Payload
  time : Time.Instant

namespace Envelope

def json (e : Envelope) : Json.Value :=
  let timestamp : Json.Value := .string (String.ofList (Time.Rfc3339.writeMillis e.time))
  match e.result with
  | .ok payload =>
    .ofMembers
      [("success", some (.bool true)), ("data", payload.json?), ("timestamp", some timestamp),
       ("metadata", payload.metadata?)]
  | .error error =>
    .object
      [("success", .bool false), ("error", .string error.message), ("timestamp", timestamp)]

end Envelope

/-- What the health check tells. -/
structure Health where
  version : String
  uptimeSeconds : Nat
  activeProjects : Nat

namespace Health

def json (h : Health) : Json.Value :=
  .object
    [("status", .string "healthy"), ("version", .string h.version),
     ("uptime_seconds", .int h.uptimeSeconds),
     ("checks", .object [("registry", .string "ok"), ("active_projects", .int h.activeProjects)])]

end Health

def livenessJson : Json.Value :=
  .object [("status", .string "alive"), ("message", .string "Server is alive")]

inductive Body where
  | empty
  | plain (text : String)
  | envelope (e : Envelope)
  | health (h : Health)
  | liveness

namespace Body

def json? : Body → Option Json.Value
  | .empty => none
  | .plain _ => none
  | .envelope e => some e.json
  | .health h => some h.json
  | .liveness => some livenessJson

def contentType? : Body → Option String
  | .empty => none
  | .plain _ => some "text/plain; charset=utf-8"
  | _ => some "application/json"

def text (b : Body) : String :=
  match b with
  | .plain s => s
  | _ => match b.json? with
    | some v => v.text
    | none => ""

end Body

/-- A reply, with all headers but those of the transport. Header names are in small letters. -/
structure Response where
  status : Nat
  headers : List (String × String) := []
  body : Body := .empty

namespace Response

/-- A reply whose headers tell the type of its body. -/
def ofBody (status : Nat) (body : Body) : Response :=
  ⟨status, (body.contentType?.map fun t => ("content-type", t)).toList, body⟩

/-- An envelope under the status of its error or, if there is none, the given one. -/
def ofResult (time : Time.Instant) (status : Nat) (result : Except RequestError Payload) :
    Response :=
  match result with
  | .ok _ => ofBody status (.envelope ⟨result, time⟩)
  | .error e => ofBody e.status (.envelope ⟨result, time⟩)

def withHeader (r : Response) (name value : String) : Response :=
  { r with headers := r.headers ++ [(name, value)] }

def header? (r : Response) (name : String) : Option String := r.headers.lookup name

/-- The reply without its body; the headers stay. -/
def withoutBody (r : Response) : Response := { r with body := .empty }

end Response
end MockServer.Http
