import MockServer.Http.Count
import MockServer.Http.MediaType
import MockServer.Http.Message
import MockServer.Http.Route

/-!
The service: every request gets one reply, and the registry as it is afterwards. Words are drawn for
mock data only.
-/
namespace MockServer.Http

open MockServer.Random

def version : String := "0.1.0"

/-- The greatest length of a request body in bytes. -/
def maxBodyLength : Nat := 2097152

structure Service where
  projects : ProjectSettings := {}
  generator : GeneratorSettings := {}

/-- What a request finds when it arrives: the clock, the time since the start, and an id that no
project has had. -/
structure Moment where
  now : Time.Instant
  uptimeSeconds : Nat
  freshId : String

/-- The record in a body that must be declared as JSON. Text after it is ignored. -/
def jsonBody {α : Type} (r : Request) (decoder : Json.Decoder α) : Except RequestError α :=
  if !(r.header? "content-type").any MediaType.isJson then .error .contentType
  else if maxBodyLength < r.body.length then .error .bodyLength
  else (Json.decodeFirst decoder (Text.Utf8.marked r.body)).mapError .body

/-- The count in a body of any type. Blanks alone are no count, and text after the record is
refused. -/
def countOfBody (body : List UInt8) : Except RequestError (Option Nat) :=
  if body.all fun b => b == 0x20 || b == 0x09 || b == 0x0A || b == 0x0D || b == 0x0C then .ok none
  else
    match Json.decode Count.bodyDecoder (Text.Utf8.marked body) with
    | .error fault => .error (.body fault)
    | .ok raw => match Count.ofJson? raw with
      | some count => .ok count
      | none => .error .count

/-- The values of the count in a query, in order. -/
def countsOfQuery (query : List Char) : List (List Char) :=
  ((Text.Percent.formPairs query).filter fun pair => pair.1 == "count".toList).map (·.2)

namespace Service

/-- Mock data of a live project under the envelope. -/
def mockReply [Mock.Phrasebook] (s : Service) (m : Moment) (reg : Registry) (id : String)
    (count : Except RequestError (Option Nat)) : Draw Response :=
  match count with
  | .error e => pure (.ofResult m.now 200 (.error e))
  | .ok count => do
    match ← reg.mockData s.generator m.now id count with
    | .error e => return .ofResult m.now 200 (.error (.project e))
    | .ok data => return .ofResult m.now 200 (.ok (.mock id data))

/-- Continues with the id of a path. One that is not text is refused without an envelope. -/
def withId (raw : List Char) (reg : Registry)
    (next : String → Draw (Response × Registry)) : Draw (Response × Registry) :=
  match Text.Utf8.decode (Text.Percent.decode raw) with
  | .ok id => next (String.ofList id)
  | .error _ => pure (.ofBody 400 (.plain "Invalid URL: Invalid UTF-8 in `id`"), reg)

/-- Continues with a raw body. One that is too long is refused without an envelope. -/
def withBody (r : Request) (reg : Registry) (next : List UInt8 → Draw (Response × Registry)) :
    Draw (Response × Registry) :=
  if maxBodyLength < r.body.length then
    pure (.ofBody 413 (.plain RequestError.lengthMessage), reg)
  else next r.body

def createProject (s : Service) (m : Moment) (r : Request) (reg : Registry) :
    Response × Registry :=
  match jsonBody r Draft.decoder with
  | .error e => (.ofResult m.now 201 (.error e), reg)
  | .ok draft =>
    match reg.create s.projects m.now m.freshId draft with
    | .error e => (.ofResult m.now 201 (.error (.project e)), reg)
    | .ok (p, reg) => (.ofResult m.now 201 (.ok (.project p)), reg)

def updateProject (m : Moment) (r : Request) (reg : Registry) (id : String) :
    Response × Registry :=
  match jsonBody r Revision.decoder with
  | .error e => (.ofResult m.now 200 (.error e), reg)
  | .ok revision =>
    match reg.update m.now id revision with
    | .error e => (.ofResult m.now 200 (.error (.project e)), reg)
    | .ok (none, reg) => (.ofResult m.now 200 (.error (.project .notFound)), reg)
    | .ok (some p, reg) => (.ofResult m.now 200 (.ok (.project p)), reg)

def deleteProject (m : Moment) (reg : Registry) (id : String) : Response × Registry :=
  match reg.deactivate m.now id with
  | (true, reg) => (.ofResult m.now 200 (.ok .nothing), reg)
  | (false, reg) => (.ofResult m.now 200 (.error (.project .notFound)), reg)

/-- The reply of an endpoint. The id of a path is read first, then the query or the body, and the
project is looked up last. -/
def serve [Mock.Phrasebook] (s : Service) (m : Moment) (r : Request) (reg : Registry)
    (endpoint : Endpoint) : Draw (Response × Registry) :=
  let query := (splitTarget r.target).2
  match endpoint with
  | .health =>
    pure (.ofBody 200 (.health ⟨version, m.uptimeSeconds, (reg.stats m.now).active⟩), reg)
  | .liveness => pure (.ofBody 200 .liveness, reg)
  | .listProjects => pure (.ofResult m.now 200 (.ok (.projects (reg.list m.now))), reg)
  | .createProject => pure (s.createProject m r reg)
  | .getProject raw => withId raw reg fun id =>
    match reg.get? m.now id with
    | some p => pure (.ofResult m.now 200 (.ok (.project p)), reg)
    | none => pure (.ofResult m.now 200 (.error (.project .notFound)), reg)
  | .updateProject raw => withId raw reg fun id => pure (updateProject m r reg id)
  | .deleteProject raw => withId raw reg fun id => pure (deleteProject m reg id)
  | .projectInterface raw => withId raw reg fun id =>
    match reg.parsedInterface m.now id with
    | .ok i => pure (.ofResult m.now 200 (.ok (.interface i)), reg)
    | .error e => pure (.ofResult m.now 200 (.error (.project e)), reg)
  | .stats => pure (.ofResult m.now 200 (.ok (.stats (reg.stats m.now))), reg)
  | .parse => withBody r reg fun body =>
    match Interface.textOfBytes body with
    | .ok text => pure (.ofResult m.now 200 (.ok (.interface (Interface.ofText text))), reg)
    | .error e => pure (.ofResult m.now 200 (.error (.project e)), reg)
  | .mockByQuery raw => withId raw reg fun id => do
    match countsOfQuery query with
    | _ :: _ :: _ =>
      return (.ofBody 400
        (.plain "Failed to deserialize query string: duplicate field `count`"), reg)
    | counts =>
      let count := match Count.ofText? counts.head? with
        | some count => .ok count
        | none => .error .count
      return (← s.mockReply m reg id count, reg)
  | .mockByBody raw => withId raw reg fun id => withBody r reg fun body => do
    return (← s.mockReply m reg id (countOfBody body), reg)

/-- The headers that let pages of any origin read the reply. -/
def openToOrigins (r : Response) : Response :=
  (r.withHeader "access-control-allow-origin" "*").withHeader "vary"
    "origin, access-control-request-method, access-control-request-headers"

/-- `OPTIONS` is answered for every path, known or not, and allows everything. -/
def preflight (route : Option Route) : Response :=
  let reply : Response := ⟨200, (route.map fun r => ("allow", r.allow)).toList, .empty⟩
  (reply.withHeader "access-control-allow-methods" "*").withHeader
    "access-control-allow-headers" "*"

/-- The reply to a request and the registry after it. -/
def handle [Mock.Phrasebook] (s : Service) (m : Moment) (r : Request) (reg : Registry) :
    Draw (Response × Registry) :=
  let route := Route.ofPath? (splitTarget r.target).1
  if r.method = "OPTIONS" then pure (openToOrigins (preflight route), reg)
  else match route with
    | none => pure (openToOrigins ⟨404, [], .empty⟩, reg)
    | some route =>
      match route.endpoint? r.method with
      | none => pure (openToOrigins ⟨405, [("allow", route.allow)], .empty⟩, reg)
      | some endpoint => do
        let (reply, reg) ← s.serve m r reg endpoint
        return (openToOrigins (if r.method = "HEAD" then reply.withoutBody else reply), reg)

end Service
end MockServer.Http
