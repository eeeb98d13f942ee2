import FleetControl.Arguments.Invocation
import FleetControl.Arguments.Pairs
import FleetControl.Assistant.Document
import FleetControl.Command.Session

/-!
# Commands on the servers of the assistant

Each reads the file of the assistant first; only adding and removing a server write it.
-/

namespace FleetControl

/-- The command on servers, for the file at a path. -/
def ServerCommand.job (path : String) (format : Format) (command : ServerCommand) : Job Unit := do
  let document ← Job.ofResult (Document.load (← Job.files) path)
  match command with
  | .list => do
    let servers ← Job.ofResult document.servers
    Job.print format (.servers servers)
  | .describe name => do
    let server ← Job.ofResult (document.get name)
    Job.print format (.oneServer name server)
  | .add name program args env force => do
    let env ← Job.ofArgument (Pairs.texts env)
    let (document, added) := document.add name { Server.ofCommand program with args, env } force
    Job.ofResult added
    Job.withFiles document.save
    Job.print format (.message
      (.done ("Added MCP server '" ++ name ++ "' to " ++ document.path)))
  | .remove name => do
    let (document, removed) := document.remove name
    let _ ← Job.ofResult removed
    Job.withFiles document.save
    Job.print format (.message (.done ("Removed MCP server '" ++ name ++ "'")))

end FleetControl
