import FleetControl.Command.Run
import FleetControl.Fleet.Wire
import Std.Async.DNS
import Std.Async.Signal
import Std.Async.System
import Std.Async.TCP
import Std.Async.Timer

/-!
# The program

The command line runs as the same session as anywhere else, again and again: each run has one answer
more than the one before and so shows what that one showed and goes on. Between two runs the request
that the session waits for is sent. An interruption needs nothing of its own, for a request that
stays without an answer is what interrupts a session.

Requests go over plain connections only; one to an address that asks for a secure one fails.
-/

namespace FleetControl.Machine

open Std.Async Std.Net

/-! ## Environment and files -/

def variableNames : List String :=
  ["OMNISTRATE_API_URL", "OMNISTRATE_SERVICE_ID", "OMNISTRATE_ENVIRONMENT_ID", "OMNISTRATE_CONFIG",
    "OMNISTRATE_PASSWORD", "XDG_CONFIG_HOME", "HOME"]

def environment : IO Environment := do
  let mut given := []
  for name in variableNames do
    if let some value ← IO.getEnv name then given := (name, value) :: given
  let home ← try some <$> System.getHomeDir catch _ => pure none
  return ⟨given, home.map fun home => home.toString⟩

def file (path : Path) : IO Entry := do
  let bytes ← IO.FS.readBinFile path.text
  return .file bytes.toList false

/-- What stands at the names of a path, or the file that stands in its way. -/
def filesAt (path : Path) : IO Files := do
  for place in path.above do
    try
      return ⟨[(place, ← file place)]⟩
    catch _ => continue
  try
    return ⟨[(path, ← file path)]⟩
  catch
    | .noFileOrDirectory .. => return .empty
    | .inappropriateType .. => return ⟨[(path, .directory)]⟩
    | fault => throw fault

/-- Writes the files that a session changed. -/
def keep (before after : Files) : IO Unit := do
  for (path, entry) in after.entries do
    match entry with
    | .directory => pure ()
    | .file bytes ownerOnly =>
      if before.stored? path != some entry then
        if let some parent := path.parent? then
          if !parent.names.isEmpty then IO.FS.createDirAll parent.text
        IO.FS.writeBinFile path.text ⟨bytes.toArray⟩
        if ownerOnly then
          IO.setAccessRights path.text ⟨⟨true, true, false⟩, ⟨false, false, false⟩,
            ⟨false, false, false⟩⟩

/-! ## Connections -/

/-- The name of a host without the brackets of an address. -/
def plainHost (host : String) : String :=
  String.ofList (host.toList.filter fun c => c != '[' && c != ']')

/-- The end of a connection to an address. -/
def socketAddress (ip : IPAddr) (portNumber : UInt16) : SocketAddress :=
  match ip with
  | .v4 addr => .v4 ⟨addr, portNumber⟩
  | .v6 addr => .v6 ⟨addr, portNumber⟩

/-- Everything that a connection gives until it is closed or breaks. -/
partial def receive (client : TCP.Socket.Client) (got : ByteArray) : Async ByteArray := do
  match ← (try client.recv? 65536 catch _ => pure none) with
  | none => return got
  | some more => receive client (got ++ more)

/-- A connection to the first address of a host that can be reached. -/
def connect? (address : Address) : Async (Option TCP.Socket.Client) := do
  let portNumber := address.portNumber.getD 80
  let ips ← try DNS.getAddrInfo (plainHost address.host) (toString portNumber) catch _ => pure #[]
  for ip in ips do
    try
      let client ← TCP.Socket.Client.mk
      client.connect (socketAddress ip portNumber.toUInt16)
      return some client
    catch _ => continue
  return none

/-- Sends a request, once, and waits for the response. -/
def exchange (request : Request) : Async (Option Response) := do
  if request.address.secure then return none
  let some client ← connect? request.address | return none
  try
    client.send ⟨request.wire.toArray⟩
    let bytes ← receive client .empty
    return Response.ofWire? bytes.toList
  catch _ => return none

/-- Sends a request that came through redirects, of which some are left. -/
def pursue : Nat → Request → Async Answer
  | left, request => do
    match ← exchange request with
    | none => return .failed (.unanswered request.address.text)
    | some response =>
      match response.redirect? request, left with
      | none, _ => return .answered response.status response.body
      | some _, 0 => return .failed (.unfollowed request.address.text)
      | some moved, left + 1 => pursue left moved

/-- Sends a request and follows its redirects. -/
def send (request : Request) : Async Answer :=
  pursue Response.maxRedirects request

/-! ## Sessions -/

/-- The interruption of this process, once it comes. -/
abbrev Interruption := AsyncTask Int

/-- Waits for a computation, but no longer than to the interruption. -/
def unlessEnded {α : Type} (interruption : Interruption) (work : Async α) : IO (Option α) :=
  Async.block (Async.race (some <$> work) ((fun _ => none) <$> await interruption))

/-- What a text has more than the text that was shown before it. -/
def addition (before after : String) : String :=
  String.ofList (after.toList.drop before.length)

/-- Shows what a session shows beyond an earlier one. -/
def present (before after : Session) : IO Unit := do
  let out ← IO.getStdout
  out.putStr (addition before.out.text after.out.text)
  out.flush
  let err ← IO.getStderr
  err.putStr (addition before.progress after.progress)
  err.flush

/-- Runs a command line on the answers so far, and again for as long as it waits for another. -/
partial def converse (environment : Environment) (words : List String) (start before : Session)
    (interruption : Interruption) (answers : List Answer) : IO Completion := do
  let (completion, session) := Completion.ofWords environment words { start with answers }
  keep before.files session.files
  present before session
  match session.pending? answers.length with
  | none => return completion
  | some request =>
    let answer ← unlessEnded interruption do
      sleep (.ofNat (session.elapsed - before.elapsed))
      send request
    match answer with
    | none => return completion
    | some answer =>
      converse environment words start session interruption (answers ++ [answer])

def run (words : List String) : IO UInt32 := do
  let environment ← environment
  let path := (Invocation.parse environment words).toOption.bind fun invocation =>
    invocation.file? environment
  let files ← match path with
    | none => pure Files.empty
    | some path => filesAt (Path.ofString path).named
  let terminal ← (← IO.getStderr).isTty
  let start := { Session.start [] files .unbounded with terminal }
  let interruption ← (← Signal.Waiter.mk .sigint false).wait
  let completion ← converse environment words start start interruption []
  (← IO.getStdout).putStr completion.answer
  (← IO.getStderr).putStr (completion.usage ++ completion.notice)
  return completion.exitCode.toUInt32

end FleetControl.Machine

def main (words : List String) : IO UInt32 := do
  try
    FleetControl.Machine.run words
  catch fault =>
    (← IO.getStderr).putStr
      (FleetControl.Error.notice (.file (.stated fault.toString)))
    return 1
