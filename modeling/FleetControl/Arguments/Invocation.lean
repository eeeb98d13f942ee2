import FleetControl.Arguments.Match

/-!
# Invocations

What a command line asks for.

1. `Command` lists what can be asked for, with its arguments.
2. `Globals` are the options that stand at every level; a value nearer to the end of the command
   line wins, and any wins over the environment.
3. `Invocation.parse` reads a command line.
-/

namespace FleetControl

/-- Whether to follow the workflow of an action, and the seconds between polls. -/
structure Waiting where
  wait : Bool
  seconds : Option Nat
  deriving DecidableEq, Repr, Inhabited

/-- The commands on instances. -/
inductive InstanceCommand where
  | list
  | describe (id : String)
  | create (resource cloudProvider region : String) (params : List String) (waiting : Waiting)
  | modify (id : String) (params : List String) (waiting : Waiting)
  | delete (id : String) (waiting : Waiting)
  | power (action : PowerAction) (id : String) (waiting : Waiting)
  | workflow (id : String) (action : Action) (seconds : Option Nat)
  deriving DecidableEq, Repr, Inhabited

/-- The commands on snapshots. -/
inductive SnapshotCommand where
  | list (instanceId : String)
  | describe (id instanceId : String)
  | create (instanceId : String)
  | delete (id instanceId : String)
  | restore (id instanceId : String) (params : List String) (waiting : Waiting)
  deriving DecidableEq, Repr, Inhabited

/-- The commands on the servers of the assistant. -/
inductive ServerCommand where
  | list
  | describe (name : String)
  | add (name command : String) (args env : List String) (force : Bool)
  | remove (name : String)
  deriving DecidableEq, Repr, Inhabited

/-- What a command line asks for. -/
inductive Command where
  | login (email password : String)
  | logout
  | onInstances (command : InstanceCommand)
  | onSnapshots (command : SnapshotCommand)
  | onServers (clientConfig : Option String) (command : ServerCommand)
  deriving DecidableEq, Repr, Inhabited

/-- The options that stand at every level. -/
structure Globals where
  apiUrl : Option String
  service : Option String
  environment : Option String
  format : Format
  config : Option String
  verbose : Bool
  deriving DecidableEq, Repr, Inhabited

/-- A command with the options around it. -/
structure Invocation where
  globals : Globals
  command : Command
  deriving DecidableEq, Repr, Inhabited

namespace Arguments

/-- The value of an option in the commands of a command line from the top down: the last that was
given, else the one of the environment. -/
def effective? (line : List Matched) (name : String) : Option String :=
  let given := line.reverse.findSome? fun matched => (matched.given.all name).getLast?
  given <|> line.findSome? fun matched => matched.inherited.lookup name

def globalsOf (line : List Matched) : Globals where
  apiUrl := effective? line "api-url"
  service := effective? line "service"
  environment := effective? line "environment"
  format := ((effective? line "format").bind Format.ofText?).getD Format.default
  config := effective? line "config"
  verbose := line.any fun matched => matched.given.has "verbose"

namespace Matched

/-- The value of an option, or nothing if it has none. -/
def value (matched : Matched) (name : String) : String :=
  (effective? [matched] name).getD ""

def number (matched : Matched) (name : String) : Option Nat :=
  (effective? [matched] name).bind number?

def waiting (matched : Matched) : Waiting :=
  ⟨matched.given.has "wait", matched.number "poll-interval"⟩

def action (matched : Matched) : Action :=
  match (effective? [matched] "action").map Action.parse with
  | some (.ok action) => action
  | _ => .create

/-- The command on instances with the name of a match. -/
def instanceCommand? (m : Matched) : Option InstanceCommand :=
  let id := m.value "id"
  let params := m.given.all "param"
  match m.name with
  | "list" => some .list
  | "describe" => some (.describe id)
  | "create" =>
    some (.create (m.value "resource") (m.value "cloud-provider") (m.value "region") params
      m.waiting)
  | "modify" => some (.modify id params m.waiting)
  | "delete" => some (.delete id m.waiting)
  | "start" => some (.power .start id m.waiting)
  | "stop" => some (.power .stop id m.waiting)
  | "restart" => some (.power .restart id m.waiting)
  | "workflow" => some (.workflow id m.action (m.number "poll-interval"))
  | _ => none

/-- The command on snapshots with the name of a match. -/
def snapshotCommand? (m : Matched) : Option SnapshotCommand :=
  let id := m.value "id"
  let instanceId := m.value "instance"
  match m.name with
  | "list" => some (.list instanceId)
  | "describe" => some (.describe id instanceId)
  | "create" => some (.create instanceId)
  | "delete" => some (.delete id instanceId)
  | "restore" => some (.restore id instanceId (m.given.all "param") m.waiting)
  | _ => none

/-- The command on servers with the name of a match. -/
def serverCommand? (m : Matched) : Option ServerCommand :=
  let name := m.value "name"
  match m.name with
  | "list" => some .list
  | "show" => some (.describe name)
  | "add" =>
    some (.add name (m.value "command") (m.given.all "arg") (m.given.all "env")
      (m.given.has "force"))
  | "remove" => some (.remove name)
  | _ => none

end Matched

def commandOf? (line : List Matched) : Option Command :=
  match line with
  | [_, only] =>
    match only.name with
    | "login" => some (.login (only.value "email") (only.value "password"))
    | "logout" => some .logout
    | _ => none
  | [_, above, last] =>
    match above.name with
    | "instance" => last.instanceCommand?.map .onInstances
    | "snapshot" => last.snapshotCommand?.map .onSnapshots
    | "mcp" => last.serverCommand?.map (.onServers (effective? line "client-config"))
    | _ => none
  | _ => none

end Arguments

/-- Reads a command line without the name of the program. -/
def Invocation.parse (environment : Environment) (words : List String) :
    Except Arguments.Refusal Invocation := do
  let line ← Arguments.commandLine.parse environment words
  match Arguments.commandOf? line with
  | some command => pure ⟨Arguments.globalsOf line, command⟩
  | none => .error .missingSubcommand

end FleetControl
