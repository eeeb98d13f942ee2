import FleetControl.Command.Account
import FleetControl.Command.Fleet
import FleetControl.Command.Servers

/-!
# Running a command line

1. `Invocation.job` runs what a command line asks for. Commands on servers need neither settings nor
   the API; commands on the fleet need a token, an address and an environment, in this order.
2. `Completion.ofWords` runs a command line; `Completion.exitCode` is what the process ends with and
   `Completion.notice` what it says about a failure.
-/

namespace FleetControl

/-- Where a command on the fleet works under the settings. -/
def Settings.context (settings : Settings) (format : Format) : Except Error FleetContext := do
  let client ← settings.client
  match settings.scope with
  | .ok scope => pure ⟨client, scope, format, settings.interval⟩
  | .error fault => .error (.config fault)

def assistantPath (environment : Environment) (named : Option String) : Except ConfigFault String :=
  match named <|> environment.assistantPath? with
  | some path => .ok path
  | none => .error .noDirectory

def Invocation.job (environment : Environment) (invocation : Invocation) : Job Unit := do
  let format := invocation.globals.format
  let settings : Job Settings := do
    Job.ofConfig (Settings.load environment (← Job.files) invocation.globals)
  match invocation.command with
  | .onServers named command => do
    let path ← Job.ofConfig (assistantPath environment named)
    command.job path format
  | .login email password => do Account.login (← settings) format email password
  | .logout => do Account.logout (← settings) format
  | .onInstances command => do
    let context ← Job.ofResult ((← settings).context format)
    command.job context
  | .onSnapshots command => do
    let context ← Job.ofResult ((← settings).context format)
    command.job context

/-- The file that a command line is about, if it can be found. -/
def Invocation.file? (environment : Environment) (invocation : Invocation) : Option String :=
  match invocation.command with
  | .onServers named _ => (assistantPath environment named).toOption
  | _ => (Settings.pathOf environment invocation.globals).toOption

/-- How a command line ended. -/
inductive Completion where
  | refused (refusal : Arguments.Refusal)
  | ran (result : Except Error Unit)

namespace Completion

def ofWords (environment : Environment) (words : List String) (session : Session) :
    Completion × Session :=
  match Invocation.parse environment words with
  | .error refusal => (.refused refusal, session)
  | .ok invocation =>
    let (result, session) := (invocation.job environment).runIn session
    (.ran result, session)

def exitCode : Completion → Nat
  | .refused refusal => refusal.exitCode
  | .ran (.ok _) => 0
  | .ran (.error e) => e.exitCode

def notice : Completion → String
  | .refused _ => ""
  | .ran (.ok _) => ""
  | .ran (.error e) => e.notice

def version : String := "omnistrate-ctl 0.1.0\n"

/-- What a refused command line prints for good: the version, if that was asked for. -/
def answer : Completion → String
  | .refused .version => version
  | _ => ""

/-- How the program is used, in place of what a refused command line asked for. -/
def usage : Completion → String
  | .refused .version => ""
  | .refused _ => "Usage: omnistrate-ctl [OPTIONS] <COMMAND>\n"
  | .ran _ => ""

end Completion

end FleetControl
