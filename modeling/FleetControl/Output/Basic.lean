import FleetControl.Assistant.Server
import FleetControl.Error
import FleetControl.Fleet.Instance
import FleetControl.Json.Printer
import FleetControl.Output.Columns
import FleetControl.Output.Format
import FleetControl.Poll.Report
import FleetControl.Text.Sink

/-!
# What commands print

1. `Output` lists what a command can print.
2. `Output.lines` is its form for people, `Output.toJson` its form for programs.
3. `Output.write` writes one of the two. A writer that runs full inside a JSON document is a fault
   of the format, anywhere else one of the writer.
-/

namespace FleetControl

/-- A sentence about what was done, with the id that came of it. -/
structure Message where
  text : String
  success : Bool
  id : Option String
  deriving DecidableEq, Repr, Inhabited

namespace Message

/-- Something was done. -/
def done (text : String) : Message := ⟨text, true, none⟩

/-- Nothing was to be done. -/
def info (text : String) : Message := ⟨text, false, none⟩

def withId (message : Message) (id : String) : Message := { message with id := some id }

end Message

/-- How a followed workflow ended. -/
structure Summary where
  instanceId : String
  action : String
  report : Report
  deriving DecidableEq, Repr, Inhabited

/-- What a command can print. -/
inductive Output where
  | instances (list : List Instance)
  | oneInstance (shown : Instance)
  | snapshots (instanceId : String) (list : List Snapshot)
  | oneSnapshot (shown : Snapshot)
  | summary (summary : Summary)
  | message (message : Message)
  | servers (list : List (String × Server))
  | oneServer (name : String) (server : Server)
  deriving Repr, Inhabited

namespace Output

open Columns

/-! ## For people -/

def dashed (value : Option String) : String := value.getD "-"

def orDash (value : Option String) : String :=
  dashed (value.filter fun s => !s.isEmpty)

def table (columns : List Column) (rows : List (List String)) : List String :=
  headings columns :: rule '─' (tableWidth columns) :: rows.map (row columns)

def instanceColumns : List Column :=
  [.left "ID" 24, .left "STATUS" 12, .left "CLOUD" 8, .left "REGION" 14, .left "CREATED" 20]

def instanceRow (i : Instance) : List String :=
  [fit 24 i.id, fit 12 i.status, dashed i.cloudProvider, dashed i.region,
    dashed (i.createdAt.map (fit 20))]

def snapshotColumns : List Column :=
  [.left "ID" 24, .left "STATUS" 12, ⟨"PROGRESS", 8, true⟩, .left "TYPE" 10, .left "CREATED" 20]

def percent (n : Nat) : String := toString n ++ "%"

def snapshotRow (s : Snapshot) : List String :=
  [fit 24 s.id, fit 12 s.status, dashed (s.progress.map percent), dashed s.snapshotType,
    dashed (s.createdTime.map (fit 20))]

def serverColumns : List Column := [.left "NAME" 20, .left "COMMAND" 50]

def serverRow (entry : String × Server) : List String :=
  [fit 20 entry.1, fit 50 entry.2.commandLine]

def total (n : Nat) (what : String) : String :=
  "Total: " ++ toString n ++ " " ++ what

/-- The value of a parameter: a string as it is, anything else as JSON. -/
def paramText : Json → String
  | .string s => s
  | value => value.compact

def paramLines (params : Json.Fields) : List String :=
  if params.isEmpty then []
  else "" :: "Parameters" :: params.map fun (key, value) => "  " ++ key ++ ": " ++ paramText value

def instanceLines (i : Instance) : List String :=
  ["Instance: " ++ i.id, rule '═' 50,
    "  Status:         " ++ i.status,
    "  Resource:       " ++ orDash i.resourceId,
    "  Cloud:          " ++ orDash i.cloudProvider,
    "  Region:         " ++ orDash i.region,
    "  Plan Version:   " ++ orDash i.tierVersion,
    "  Created:        " ++ orDash i.createdAt] ++ paramLines i.resultParams

def snapshotLines (s : Snapshot) : List String :=
  ["Snapshot: " ++ s.id, rule '═' 50, "  Status:         " ++ s.status] ++
    (match s.progress with
      | none => []
      | some n => ["  Progress:       " ++ percent n]) ++
    ["  Type:           " ++ orDash s.snapshotType,
      "  Region:         " ++ orDash s.region,
      "  Source:         " ++ orDash s.sourceInstanceId,
      "  Created:        " ++ orDash s.createdTime,
      "  Completed:      " ++ orDash s.completedTime]

def verdictMark : Verdict → String
  | .success => "✓"
  | .failure => "✗"

def statusMark : ResourceStatus → String
  | .completed => "✓"
  | .failed => "✗"
  | .running => "○"
  | .pending => "○"

def resourceLine (r : ResourceReport) : String :=
  "  " ++ statusMark r.status ++ " " ++ (Column.left "" 24).fill r.name ++ " " ++ r.status.text

def summaryLines (s : Summary) : List String :=
  match s.report.workflowStatus with
  | none => ["No " ++ s.action ++ " workflow found for instance " ++ s.instanceId]
  | some status =>
    (verdictMark s.report.verdict ++ " " ++ s.action ++ " of " ++ s.instanceId ++ " finished: " ++
      status) :: s.report.resources.map resourceLine

def serverLines (name : String) (server : Server) : List String :=
  ["MCP Server: " ++ name, rule '═' 34, "  Command:        " ++ server.command] ++
    (if server.args.isEmpty then [] else ["  Args:           " ++ Text.join " " server.args]) ++
    if server.env.isEmpty then []
    else "  Environment:" :: server.env.map fun (key, value) => "    " ++ key ++ "=" ++ value

/-- The form for people. -/
def lines : Output → List String
  | .instances [] => ["No instances found"]
  | .instances list =>
    table instanceColumns (list.map instanceRow) ++ ["", total list.length "instance(s)"]
  | .oneInstance shown => instanceLines shown
  | .snapshots instanceId [] => ["No snapshots for instance " ++ instanceId]
  | .snapshots _ list =>
    table snapshotColumns (list.map snapshotRow) ++ ["", total list.length "snapshot(s)"]
  | .oneSnapshot shown => snapshotLines shown
  | .summary s => summaryLines s
  | .message m => [if m.success then "✓ " ++ m.text else m.text]
  | .servers [] => ["No MCP servers configured"]
  | .servers list => table serverColumns (list.map serverRow)
  | .oneServer name server => serverLines name server

/-! ## For programs -/

def serverJson (name : String) (server : Server) : Json :=
  .object (("name", .string name) :: server.fields)

/-- The form for programs. -/
def toJson : Output → Json
  | .instances list => .object [("instances", .array (list.map Instance.toJson))]
  | .oneInstance shown => shown.toJson
  | .snapshots instanceId list =>
    .object [("instance_id", .string instanceId), ("snapshots", .array (list.map Snapshot.toJson))]
  | .oneSnapshot shown => shown.toJson
  | .summary s =>
    .object ([("instance_id", .string s.instanceId), ("action", .string s.action)] ++
      s.report.fields)
  | .message m =>
    .object ([("message", .string m.text)] ++
      (if m.success then [("success", .bool true)] else []) ++
      Json.optional "id" (m.id.map .string))
  | .servers list => .object [("servers", .array (list.map fun (name, s) => serverJson name s))]
  | .oneServer name server => serverJson name server

/-! ## Writing -/

/-- The fault of a document that the writer does not take. -/
def documentFault : Error :=
  .format ("JSON serialization failed: " ++ FileFault.writerFull.message)

/-- Writes lines, each with its end. -/
def writeLines (sink : Text.Sink) (lines : List String) : Text.Sink × Except Error Unit :=
  match sink.writeAll (lines.map fun line => line ++ "\n") with
  | (sink, true) => (sink, .ok ())
  | (sink, false) => (sink, .error (.file .writerFull))

def write (output : Output) (format : Format) (sink : Text.Sink) : Text.Sink × Except Error Unit :=
  match format with
  | .table => writeLines sink output.lines
  | .json =>
    match sink.write output.toJson.pretty with
    | (sink, false) => (sink, .error documentFault)
    | (sink, true) => writeLines sink [""]

end Output

end FleetControl
