import FleetControl.Json.Decode
import FleetControl.Text.Blank

/-!
# Servers of an assistant

A `Server` says which program the assistant starts, with which arguments and variables. Fields that
are not known here are kept.

1. `Server.fields` are the fields in the order in which they are printed.
2. `Server.toJson` is the entry that is stored: there a kept field wins over a known one of the same
   name.
-/

namespace FleetControl

/-- A program for an assistant to start. -/
structure Server where
  command : String
  args : List String
  env : Dictionary String
  extra : Json.Fields
  deriving Repr, Inhabited

namespace Server

/-- A server without anything but its command. -/
def ofCommand (command : String) : Server := ⟨command, [], [], []⟩

def commandLine (server : Server) : String :=
  Text.join " " (server.command :: server.args)

open Json in
def decoder : Decoder Server := fun depth t => do
  let slots ← Slots.ofOpenTree "McpServer" [["command"], ["args"], ["env"]] depth t
  let args ← slots.defaulted 1 [] (Decoder.list Decoder.string)
  let command ← slots.defaulted 0 none (fun d t => (Decoder.string d t).map some)
  let env ← slots.defaulted 2 [] (Decoder.mapOf Decoder.string)
  let command ← match command with
    | some command => pure command
    | none => .error (.missingField "command")
  let extra ← slots.rest
  pure ⟨command, args, env, extra⟩

/-- The fields in the order in which they are printed. -/
def fields (server : Server) : List (String × Json) :=
  [("command", .string server.command)] ++
    (if server.args.isEmpty then [] else [("args", Json.strings server.args)]) ++
    (if server.env.isEmpty then []
      else [("env", .object (server.env.map fun (k, v) => (k, .string v)))]) ++
    server.extra

def toJson (server : Server) : Json :=
  .object (Dictionary.ofList server.fields)

end Server

end FleetControl
