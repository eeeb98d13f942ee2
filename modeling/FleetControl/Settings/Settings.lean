import FleetControl.Arguments.Invocation
import FleetControl.Fleet.Request
import FleetControl.Poll.Cadence
import FleetControl.Settings.Config

/-!
# Settings

What holds for one invocation: an option or variable wins over the configuration file, and that over
the default.

1. `Settings.load` finds the file and settles every value.
2. `Settings.scope` and `Settings.requiredToken` are the values that not every command needs.
-/

namespace FleetControl

/-- The settings of an invocation; the interval is in milliseconds. -/
structure Settings where
  apiUrl : String
  token : Option String
  serviceId : Option String
  environmentId : Option String
  interval : Nat
  configPath : String
  deriving DecidableEq, Repr, Inhabited

namespace Settings

def defaultApiUrl : String := "https://api.omnistrate.cloud"

def merge (globals : Globals) (config : Config) (configPath : String) : Settings where
  apiUrl := (globals.apiUrl <|> config.apiUrl).getD defaultApiUrl
  token := config.token
  serviceId := globals.service <|> config.serviceId
  environmentId := globals.environment <|> config.environmentId
  interval := intervalOfSecs config.pollSeconds defaultInterval
  configPath := configPath

/-- Where the configuration of an invocation lies. -/
def pathOf (environment : Environment) (globals : Globals) : Except ConfigFault String :=
  match globals.config <|> environment.configPath? with
  | some path => .ok path
  | none => .error .noDirectory

def load (environment : Environment) (files : Files) (globals : Globals) :
    Except ConfigFault Settings := do
  let path ← pathOf environment globals
  let config ← Config.load files path
  pure (merge globals config path)

/-- The service environment, both parts of which must be set. -/
def scope (settings : Settings) : Except ConfigFault Scope :=
  match settings.serviceId, settings.environmentId with
  | none, _ => .error .noService
  | some _, none => .error .noEnvironment
  | some service, some environment => .ok ⟨service, environment⟩

/-- The token, which must be set and not empty. -/
def requiredToken (settings : Settings) : Except Error String :=
  match settings.token.filter fun token => !token.isEmpty with
  | some token => .ok token
  | none => .error .notAuthenticated

def client (settings : Settings) : Except Error Client := do
  let token ← settings.requiredToken
  match Client.new settings.apiUrl (some token) with
  | .ok client => pure client
  | .error fault => .error (.config fault)

end Settings

end FleetControl
