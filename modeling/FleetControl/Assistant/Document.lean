import FleetControl.Assistant.Server
import FleetControl.Error
import FleetControl.Json.Printer

/-!
# The configuration of an assistant

The file is an object with a table of servers under one of its keys; the rest of it belongs to the
assistant and is kept.

1. `Document.load` reads the file; a missing or blank one is an empty object.
2. `Document.servers`, `Document.get`, `Document.add` and `Document.remove` work on the table.
3. `Document.save` writes the file.
-/

namespace FleetControl

/-- The configuration of an assistant, with the path of its file. -/
structure Document where
  path : String
  fields : Json.Fields
  deriving Repr, Inhabited

namespace Document

def serversKey : String := "mcpServers"

def notFound (name : String) : Error := .notFound "MCP server" name

def parse (path content : String) : Except Error Json.Fields :=
  if Text.isBlankText content then .ok []
  else
    match Json.read Json.Decoder.anyValue content with
    | .error fault => .error (.json fault)
    | .ok (.object fields) => .ok fields
    | .ok _ => .error (.config (.notAnObject path))

def load (files : Files) (path : String) : Except Error Document :=
  match files.readText (.ofString path) with
  | .error fault => .error (.file fault)
  | .ok none => .ok ⟨path, []⟩
  | .ok (some content) => (parse path content).map fun fields => ⟨path, fields⟩

/-- The table of servers; absent and null stand for an empty one. -/
def table (document : Document) : Except Error Json.Fields :=
  match document.fields.get? serversKey with
  | none => .ok []
  | some .null => .ok []
  | some (.object table) => .ok table
  | some _ => .error (.config .serversNotAnObject)

def withTable (document : Document) (table : Json.Fields) : Document :=
  { document with fields := document.fields.insert serversKey (.object table) }

def serverOf (name : String) (entry : Json) : Except Error Server :=
  match Json.ofValue Server.decoder entry with
  | .ok server => .ok server
  | .error fault => .error (.config (.badServer name fault))

def servers (document : Document) : Except Error (List (String × Server)) := do
  let table ← document.table
  table.mapM fun (name, entry) => do
    let server ← serverOf name entry
    pure (name, server)

def get (document : Document) (name : String) : Except Error Server := do
  let table ← document.table
  match table.get? name with
  | some entry => serverOf name entry
  | none => .error (notFound name)

/-- Adds a server; an entry with its name is only replaced by `force`. The document that an error
leaves has a table, if it can have one. -/
def add (document : Document) (name : String) (server : Server) (force : Bool) :
    Document × Except Error Unit :=
  if Text.isBlankText name then (document, .error (.invalidArgument .emptyServerName))
  else
    match document.table with
    | .error e => (document, .error e)
    | .ok table =>
      if table.contains name && !force then
        (document.withTable table, .error (.invalidArgument (.serverExists name)))
      else (document.withTable (table.insert name server.toJson), .ok ())

/-- Takes the entry with a name out and gives its server. -/
def remove (document : Document) (name : String) : Document × Except Error Server :=
  match document.table with
  | .error e => (document, .error e)
  | .ok table =>
    match table.get? name with
    | none => (document.withTable table, .error (notFound name))
    | some entry =>
      (document.withTable (table.erase name),
        match Json.ofValue Server.decoder entry with
        | .ok server => .ok server
        | .error fault => .error (.json fault))

def render (document : Document) : String :=
  (Json.object document.fields).pretty ++ "\n"

def save (document : Document) (files : Files) : Except FileFault Files :=
  files.save (.ofString document.path) document.render

end Document

end FleetControl
