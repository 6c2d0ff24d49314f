import MockServer.Text.Percent

/-!
Routes by path and endpoints by method. A path matches exactly, and an id is any segment. Only an id
that other segments follow may be empty.
-/
namespace MockServer.Http

/-- A known path. Ids are as they stand in the path, percent escapes included. -/
inductive Route where
  | health
  | liveness
  | projects
  | project (id : List Char)
  | projectInterface (id : List Char)
  | stats
  | parse
  | mock (id : List Char)
  deriving DecidableEq, Repr

/-- What a request asks for. -/
inductive Endpoint where
  | health
  | liveness
  | listProjects
  | createProject
  | getProject (id : List Char)
  | updateProject (id : List Char)
  | deleteProject (id : List Char)
  | projectInterface (id : List Char)
  | stats
  | parse
  | mockByQuery (id : List Char)
  | mockByBody (id : List Char)
  deriving DecidableEq, Repr

/-- What follows the two slashes after a scheme. -/
def afterScheme : List Char → List Char
  | [] => []
  | ':' :: '/' :: '/' :: rest => rest
  | _ :: rest => afterScheme rest

/-- A target from its path on. A target without a slash at its start names a scheme and a host
before the path, or it has no path. -/
def fromPath (target : List Char) : List Char :=
  if target.head? = some '/' then target
  else (afterScheme target).dropWhile fun c => c != '/' && c != '?' && c != '#'

/-- The path and the query of a target. A fragment does not count. -/
def splitTarget (target : String) : List Char × List Char :=
  let s := (fromPath target.toList).takeWhile (· != '#')
  (s.takeWhile (· != '?'), (s.dropWhile (· != '?')).tail)

namespace Route

def ofSegments? (segments : List (List Char)) : Option Route :=
  match segments.map String.ofList, segments with
  | ["health"], _ => some .health
  | ["health", "live"], _ => some .liveness
  | ["api", "projects"], _ => some .projects
  | ["api", "stats"], _ => some .stats
  | ["api", "interfaces", "parse"], _ => some .parse
  | ["api", "projects", _], [_, _, id] => if id.isEmpty then none else some (.project id)
  | ["api", "mock", _], [_, _, id] => if id.isEmpty then none else some (.mock id)
  | ["api", "projects", _, "interface"], [_, _, id, _] => some (.projectInterface id)
  | _, _ => none

def ofPath? (path : List Char) : Option Route :=
  match path with
  | '/' :: rest => ofSegments? (Text.Percent.cutAt '/' rest)
  | _ => none

/-- The endpoints of a route by method, in the order in which they are announced. -/
def endpoints : Route → List (String × Endpoint)
  | .health => [("GET", .health)]
  | .liveness => [("GET", .liveness)]
  | .projects => [("GET", .listProjects), ("POST", .createProject)]
  | .project id =>
    [("GET", .getProject id), ("PATCH", .updateProject id), ("DELETE", .deleteProject id)]
  | .projectInterface id => [("GET", .projectInterface id)]
  | .stats => [("GET", .stats)]
  | .parse => [("POST", .parse)]
  | .mock id => [("GET", .mockByQuery id), ("POST", .mockByBody id)]

/-- The endpoint of a method. `HEAD` is served as `GET`. -/
def endpoint? (r : Route) (method : String) : Option Endpoint :=
  r.endpoints.lookup (if method = "HEAD" then "GET" else method)

/-- The methods that are served; `HEAD` comes with `GET`. -/
def allow (r : Route) : String :=
  ",".intercalate (r.endpoints.flatMap fun (m, _) => if m = "GET" then ["GET", "HEAD"] else [m])

end Route
end MockServer.Http
