import FleetControl.Arguments.Pairs
import FleetControl.Command.Follow
import FleetControl.Settings.Settings

/-!
# Commands on instances and snapshots

1. `FleetContext` is where such a command works: the client, the environment, the format and the
   interval.
2. `acknowledge` prints what was done. To follow the workflow after it, people get the sentence
   first; programs get the one document at the end.
3. `InstanceCommand.job` and `SnapshotCommand.job` are the commands. Each changes at most one thing,
   by its first request.
-/

namespace FleetControl

/-- Where a command on the fleet works; the interval between polls is in milliseconds. -/
structure FleetContext where
  client : Client
  scope : Scope
  format : Format
  interval : Nat
  deriving DecidableEq, Repr, Inhabited

namespace FleetContext

def request (context : FleetContext) (operation : Operation) : Except RequestFault Request :=
  context.client.request context.scope operation

/-- Asks for an operation whose answer has nothing to say. -/
def perform (context : FleetContext) (operation : Operation) : Job Unit := do
  let _ ← Job.ask (context.request operation)

def fetch {α : Type} (context : FleetContext) (decoder : Json.Decoder α) (operation : Operation) :
    Job α :=
  Job.askFor decoder (context.request operation)

def print (context : FleetContext) (output : Output) : Job Unit :=
  Job.print context.format output

/-- Follows the workflow of an action; seconds on the command line win over the configuration. -/
def follow (context : FleetContext) (instanceId : String) (action : Action) (seconds : Option Nat) :
    Job Unit :=
  Follow.job context.client (.following context.scope instanceId action) context.format
    (intervalOfSecs seconds context.interval)

/-- Says what was done, and follows its workflow if that is wanted. -/
def acknowledge (context : FleetContext) (message : Message) (instanceId : String) (action : Action)
    (waiting : Waiting) : Job Unit := do
  if !waiting.wait || !context.format.isJson then context.print (.message message)
  if waiting.wait then context.follow instanceId action waiting.seconds

end FleetContext

def InstanceCommand.job (context : FleetContext) : InstanceCommand → Job Unit
  | .list => do
    let list ← context.fetch Answer.instancesDecoder .listInstances
    context.print (.instances list)
  | .describe id => do
    let shown ← context.fetch Instance.decoder (.describeInstance id)
    context.print (.oneInstance shown)
  | .create resource cloudProvider region params waiting => do
    let params ← Job.ofArgument (Pairs.params params)
    let id ← context.fetch Answer.instanceIdDecoder
      (.createInstance ⟨resource, cloudProvider, region, params⟩)
    context.acknowledge ((Message.done ("Instance " ++ id ++ " created")).withId id) id .create
      waiting
  | .modify id params waiting => do
    if params.isEmpty then throw (.invalidArgument .noParams)
    let params ← Job.ofArgument (Pairs.params params)
    context.perform (.modifyInstance id params)
    context.acknowledge (.done ("Instance " ++ id ++ " modification requested")) id .modify waiting
  | .delete id waiting => do
    context.perform (.deleteInstance id)
    context.acknowledge (.done ("Instance " ++ id ++ " deletion requested")) id .delete waiting
  | .power action id waiting => do
    context.perform (.power id action)
    context.acknowledge (.done ("Instance " ++ id ++ " " ++ action.segment ++ " requested")) id
      action.action waiting
  | .workflow id action seconds => context.follow id action seconds

def SnapshotCommand.job (context : FleetContext) : SnapshotCommand → Job Unit
  | .list instanceId => do
    let list ← context.fetch Answer.snapshotsDecoder (.listSnapshots instanceId)
    context.print (.snapshots instanceId list)
  | .describe id instanceId => do
    let shown ← context.fetch Snapshot.decoder (.describeSnapshot instanceId id)
    context.print (.oneSnapshot shown)
  | .create instanceId => do
    let id ← context.fetch Answer.snapshotIdDecoder (.createSnapshot instanceId)
    context.print (.message
      ((Message.done ("Snapshot " ++ id ++ " of " ++ instanceId ++ " requested")).withId id))
  | .delete id instanceId => do
    context.perform (.deleteSnapshot instanceId id)
    context.print (.message (.done ("Snapshot " ++ id ++ " deleted")))
  | .restore id instanceId params waiting => do
    let params ← Job.ofArgument (Pairs.params params)
    let new ← context.fetch Answer.instanceIdDecoder (.restoreSnapshot instanceId id params)
    context.acknowledge
      ((Message.done ("Snapshot " ++ id ++ " restoring into instance " ++ new)).withId new) new
      .restore waiting

end FleetControl
