import MockServer.Http.Service
import MockServer.Project.CleanupTimer
import MockServer.Settings.Load
import Std.Http.Server
import Std.Time.DateTime.Timestamp

/-!
The program: settings from the command line, the environment and a file, and then the service on a
socket.
-/
namespace MockServer.Program

/-- What all requests share. -/
structure Shared where
  service : Http.Service
  registry : Std.Mutex Registry
  startMillis : Nat

def clock : IO Time.Instant := do
  return .ofNanos (← Std.Time.Timestamp.now).toNanosecondsSinceUnixEpoch.val

def randomWords (n : Nat) : IO (List UInt64) := do
  let bytes ← IO.getRandomBytes (USize.ofNat (8 * n))
  let byte (i : Nat) : UInt64 := (bytes[i]?.getD 0).toUInt64
  return (List.range n).map fun i =>
    (List.range 8).foldl (fun word j => word * 256 + byte (8 * i + j)) 0

/-- The result of a computation on random words, on twice as many as long as they do not suffice. -/
partial def runRandom {α : Type} (draw : Random.Draw α) (n : Nat) : IO α := do
  match draw (← randomWords n) with
  | some (a, _) => return a
  | none => runRandom draw (2 * n)

def freshId : IO String := do
  return String.ofList (← runRandom Uuid.draw 16).simpleText

namespace Shared

def cleanup (s : Shared) : IO Unit := do
  let now ← clock
  s.registry.atomically do modify fun reg => (reg.cleanup now).2

/-- One cleanup at once and one at the end of every interval. -/
partial def keepClean (s : Shared) : IO Unit := do
  s.cleanup
  IO.sleep (UInt32.ofNat (CleanupTimer.start s.service.projects).periodMillis)
  s.keepClean

/-- Requests are served one after the other. -/
def reply (s : Shared) (request : Http.Request) : IO Http.Response := do
  let uptime := ((← IO.monoMsNow) - s.startMillis) / 1000
  let id ← freshId
  s.registry.atomically do
    let moment : Http.Moment := ⟨← clock, uptime, id⟩
    let (reply, reg) ← runRandom (s.service.handle moment request (← get)) 256
    set reg
    return reply

end Shared

instance : Std.Http.Server.Handler Shared where
  ResponseBody := Std.Http.Body.Full
  onRequest s request := do
    let body : ByteArray ← request.body.readAll
    let reply ← s.reply
      { method := toString request.line.method
        target := toString request.line.uri
        headers := request.line.headers.toList.map fun (name, v) => (name.value, v.value)
        body := body.toList }
    let head : Std.Http.Response.Builder := Std.Http.Response.withStatus
      ((Std.Http.Status.ofCode none (UInt16.ofNat reply.status)).getD .internalServerError)
    let head := reply.headers.foldl (fun head (name, v) => (head.header? name v).getD head) head
    return head.body (← Std.Http.Body.Full.ofString reply.body.text)

/-- The arguments and the environment. -/
def readCommandLine (arguments : List String) :
    IO (Except CommandLine.Fault CommandLine) := do
  let mut environment := []
  for name in CommandLine.names do
    if let some v ← IO.getEnv name.environmentKey then
      environment := environment ++ [(name.environmentKey, v)]
  return CommandLine.read arguments environment

/-- The top level of the first settings file that can be read, or an empty one. A file that is no
text counts as empty. -/
def readTopLevel (name : String) : IO (Except LoadFault ConfigValue) := do
  for (file, format) in settingsFiles name do
    if let .ok bytes ← (IO.FS.readBinFile file).toBaseIO then
      return match format, Text.Utf8.decode bytes.toList with
        | some format, .ok text => ConfigValue.ofText format text
        | _, _ => .ok (.table [])
  return .ok (.table [])

/-- Serves until the process is stopped. -/
def serve (settings : Settings) : IO UInt32 := do
  let some address := Std.Net.IPv4Addr.ofString settings.server.host
    | IO.eprintln ("invalid host address: " ++ settings.server.host)
      return 1
  let shared : Shared :=
    ⟨⟨settings.projects, settings.generator⟩, ← Std.Mutex.new {}, ← IO.monoMsNow⟩
  discard (IO.asTask shared.keepClean)
  let server ← (Std.Http.Server.serve (.v4 ⟨address, settings.server.port⟩) shared).block
  server.waitShutdown.block
  return 0

def run (arguments : List String) : IO UInt32 := do
  match ← readCommandLine arguments with
  | .error .help => IO.println CommandLine.usage; return 0
  | .error .version => IO.print CommandLine.versionText; return 0
  | .error fault => IO.eprintln fault.message; return 2
  | .ok line =>
    let top ← readTopLevel line.config
    match top.bind fun v => Settings.load v line with
    | .error fault => IO.eprintln fault.message; return 1
    | .ok settings => serve settings

end MockServer.Program

def main (arguments : List String) : IO UInt32 := MockServer.Program.run arguments
