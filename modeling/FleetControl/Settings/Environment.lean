import FleetControl.Files.Basic
import FleetControl.Text.Blank

/-!
# The environment of a process

1. `Environment.get?` is a variable; one that is set to nothing is set.
2. `Environment.configDirectory?` is where the configuration of a user lies.
-/

namespace FleetControl

/-- The variables of a process, and the home directory of the account that runs it. -/
structure Environment where
  entries : List (String × String)
  accountHome : Option String
  deriving DecidableEq, Repr, Inhabited

namespace Environment

def get? (environment : Environment) (name : String) : Option String :=
  environment.entries.lookup name

/-- The home directory: the one that is named, unless that is empty. -/
def home? (environment : Environment) : Option String :=
  ((environment.get? "HOME").filter fun home => !home.isEmpty) <|> environment.accountHome

/-- The directory of configurations: the named one if it begins at the root, else one in the home
directory. -/
def configDirectory? (environment : Environment) : Option String :=
  ((environment.get? "XDG_CONFIG_HOME").filter fun directory => Text.startsWith directory "/") <|>
    environment.home?.map fun home => Path.within home ".config"

/-- Where the configuration of this program lies. -/
def configPath? (environment : Environment) : Option String :=
  environment.configDirectory?.map fun directory =>
    Path.within (Path.within directory "omnistrate-ctl") "config.toml"

/-- Where the configuration of the assistant lies. -/
def assistantPath? (environment : Environment) : Option String :=
  environment.configDirectory?.map fun directory =>
    Path.within (Path.within directory "Claude") "claude_desktop_config.json"

end Environment

end FleetControl
