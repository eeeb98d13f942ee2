import FleetControl.Files.Basic
import FleetControl.Json.Decode
import FleetControl.Workflow.Error

/-!
# How a command may fail

1. `RequestFault`, `ConfigFault` and `ArgumentFault` are the causes of three kinds of error; the
   other kinds have their causes elsewhere.
2. `Error` is any error, `Error.message` its wording.
3. `Error.isCancelled` tells an interruption from a failure; `Error.exitCode` is what the process
   ends with.
-/

namespace FleetControl

/-- Why a request brought no answer that can be used. -/
inductive RequestFault where
  /-- The address or a header cannot be sent. -/
  | unsendable
  | unanswered (address : String)
  /-- The last of too many redirects came from this address. -/
  | unfollowed (address : String)
  | undecodable
  | stated (reason : String)
  deriving DecidableEq, Repr, Inhabited

def RequestFault.message : RequestFault → String
  | .unsendable => "builder error"
  | .unanswered address => "error sending request for url (" ++ address ++ ")"
  | .unfollowed address => "error following redirect for url (" ++ address ++ ")"
  | .undecodable => "error decoding response body"
  | .stated reason => reason

/-- What is wrong with a configuration. -/
inductive ConfigFault where
  | noDirectory
  | unreadable (path : String) (fault : FileFault)
  | badToml
  | badAddress (address : String)
  | noService
  | noEnvironment
  | notAnObject (path : String)
  | serversNotAnObject
  | badServer (name : String) (fault : Json.Fault)
  | stated (reason : String)
  deriving DecidableEq, Repr, Inhabited

def ConfigFault.message : ConfigFault → String
  | .noDirectory => "cannot determine config directory"
  | .unreadable path fault => "failed to read config file '" ++ path ++ "': " ++ fault.message
  | .badToml => "invalid TOML: the text is not a valid document\n"
  | .badAddress address =>
    "invalid API URL: " ++ address ++ ", must start with http:// or https://"
  | .noService => "service ID required (--service or OMNISTRATE_SERVICE_ID)"
  | .noEnvironment => "environment ID required (--environment or OMNISTRATE_ENVIRONMENT_ID)"
  | .notAnObject path => "'" ++ path ++ "' is not a JSON object"
  | .serversNotAnObject => "'mcpServers' is not an object"
  | .badServer name fault => "invalid MCP server '" ++ name ++ "': " ++ fault.message
  | .stated reason => reason

/-- What is wrong with an argument. -/
inductive ArgumentFault where
  | notAPair (pair : String)
  | emptyKey (pair : String)
  | emptyEmail
  | noParams
  | emptyServerName
  | serverExists (name : String)
  | stated (reason : String)
  deriving DecidableEq, Repr, Inhabited

def ArgumentFault.message : ArgumentFault → String
  | .notAPair pair => "expected KEY=VALUE, got '" ++ pair ++ "'"
  | .emptyKey pair => "empty key in '" ++ pair ++ "'"
  | .emptyEmail => "email cannot be empty"
  | .noParams => "at least one --param is required"
  | .emptyServerName => "MCP server name cannot be empty"
  | .serverExists name =>
    "MCP server '" ++ name ++ "' already exists, use --force to replace it"
  | .stated reason => reason

/-- Why a command failed. -/
inductive Error where
  | api (status : Nat) (message : String)
  | request (fault : RequestFault)
  | config (fault : ConfigFault)
  | notAuthenticated
  | invalidArgument (fault : ArgumentFault)
  | notFound (kind id : String)
  | format (reason : String)
  | workflow (error : WorkflowError)
  | json (fault : Json.Fault)
  | file (fault : FileFault)
  /-- A pause would have ended after the clock of the process. -/
  | clockEnded
  deriving DecidableEq, Repr, Inhabited

namespace Error

def message : Error → String
  | .api status message => "API error (" ++ toString status ++ "): " ++ message
  | .request fault => "request failed: " ++ fault.message
  | .config fault => "configuration error: " ++ fault.message
  | .notAuthenticated => "not logged in, run `omnistrate-ctl login` first"
  | .invalidArgument fault => "invalid argument: " ++ fault.message
  | .notFound kind id => kind ++ " not found: " ++ id
  | .format reason => "format error: " ++ reason
  | .workflow error => error.message
  | .json fault => "JSON error: " ++ fault.message
  | .file fault => "IO error: " ++ fault.message
  | .clockEnded => "overflow when adding duration to instant"

/-- Whether a command was interrupted rather than failed. -/
def isCancelled : Error → Bool
  | .workflow error => error.isCancelled
  | _ => false

def interrupted : Error := .workflow .cancelled

def exitCode : Error → Nat
  | .workflow .cancelled => 130
  | .clockEnded => 101
  | _ => 1

def notice (error : Error) : String :=
  if error.isCancelled then "Interrupted\n" else "Error: " ++ error.message ++ "\n"

end Error

end FleetControl
