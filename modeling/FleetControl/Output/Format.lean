/-!
# Output formats
-/

namespace FleetControl

/-- How results are printed: as tables for people, or as JSON for programs. -/
inductive Format where
  | table
  | json
  deriving DecidableEq, Repr, Inhabited

namespace Format

def text : Format → String
  | .table => "table"
  | .json => "json"

/-- The format in use if none is named. -/
def default : Format := .table

def ofText? (name : String) : Option Format :=
  [Format.table, .json].find? fun format => format.text == name

def isJson (format : Format) : Bool :=
  format == .json

end Format

end FleetControl
