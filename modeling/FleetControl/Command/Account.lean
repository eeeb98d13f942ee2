import FleetControl.Command.Session
import FleetControl.Settings.Settings

/-!
# Signing in and out

The token of an account is kept in the configuration file; everything else in the file stays.
-/

namespace FleetControl.Account

/-- Puts a token into the configuration file, or takes it out. -/
def store (path : String) (config : Config) (token : Option String) : Job Unit :=
  Job.withFiles fun files => { config with token }.save files path

def login (settings : Settings) (format : Format) (email password : String) : Job Unit := do
  if Text.isBlankText email then throw (.invalidArgument .emptyEmail)
  let client ← Job.ofConfig (Client.new settings.apiUrl none)
  let token ← Job.askFor Answer.tokenDecoder (client.signIn email password)
  let config ← Job.ofConfig (Config.load (← Job.files) settings.configPath)
  store settings.configPath config (some token)
  Job.print format (.message (.done ("Logged in as " ++ email)))

def logout (settings : Settings) (format : Format) : Job Unit := do
  let config ← Job.ofConfig (Config.load (← Job.files) settings.configPath)
  match config.token with
  | none => Job.print format (.message (.info "Not logged in"))
  | some _ => do
    store settings.configPath config none
    Job.print format (.message (.done "Logged out"))

end FleetControl.Account
