import FleetControl.Error
import FleetControl.Toml.Writer

/-!
# The configuration file

1. `Config.parse` reads a configuration: names that are not known are passed over, but the whole
   text must be a valid document.
2. `Config.render` writes one; values that are absent are left out.
3. `Config.load` takes a missing file for an empty configuration, `Config.save` writes a file that
   only its owner can read.
-/

namespace FleetControl

/-- What the configuration file holds. -/
structure Config where
  apiUrl : Option String
  token : Option String
  serviceId : Option String
  environmentId : Option String
  pollSeconds : Option Nat
  deriving DecidableEq, Repr, Inhabited

namespace Config

def empty : Config := ⟨none, none, none, none, none⟩

/-- A text in a table; any other value in its place is a fault. -/
def text? (fields : Toml.Fields) (key : String) : Except ConfigFault (Option String) :=
  match fields.get? key with
  | none => .ok none
  | some (.string s) => .ok (some s)
  | some _ => .error .badToml

/-- A number of 64 bits in a table; any other value in its place is a fault. -/
def number? (fields : Toml.Fields) (key : String) : Except ConfigFault (Option Nat) :=
  match fields.get? key with
  | none => .ok none
  | some (.integer n) => if 0 ≤ n && n < UInt64.size then .ok (some n.toNat) else .error .badToml
  | some _ => .error .badToml

def ofFields (fields : Toml.Fields) : Except ConfigFault Config := do
  let apiUrl ← text? fields "api_url"
  let token ← text? fields "token"
  let serviceId ← text? fields "service_id"
  let environmentId ← text? fields "environment_id"
  let pollSeconds ← number? fields "poll_interval_secs"
  pure { apiUrl, token, serviceId, environmentId, pollSeconds }

def parse (content : String) : Except ConfigFault Config :=
  match Toml.read? content with
  | none => .error .badToml
  | some fields => ofFields fields

def textLine (key : String) (value : Option String) : String :=
  match value with
  | none => ""
  | some s => Toml.pairLine key (Toml.quoted s)

def numberLine (key : String) (value : Option Nat) : String :=
  match value with
  | none => ""
  | some n => Toml.pairLine key (String.ofList (Nat.toDigits 10 n))

def render (config : Config) : String :=
  textLine "api_url" config.apiUrl ++ textLine "token" config.token ++
    textLine "service_id" config.serviceId ++ textLine "environment_id" config.environmentId ++
    numberLine "poll_interval_secs" config.pollSeconds

/-- The configuration in a file; a missing file is empty. -/
def load (files : Files) (path : String) : Except ConfigFault Config :=
  match files.readText (.ofString path) with
  | .error fault => .error (.unreadable path fault)
  | .ok none => .ok empty
  | .ok (some content) => parse content

/-- Writes a configuration to a file that only its owner can read. -/
def save (config : Config) (files : Files) (path : String) : Except FileFault Files := do
  let files ← files.save (.ofString path) config.render
  pure (files.protect (.ofString path))

end Config

end FleetControl
