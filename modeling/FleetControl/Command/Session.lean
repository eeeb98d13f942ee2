import FleetControl.Fleet.Collect
import FleetControl.Output.Basic

/-!
# Sessions

A command runs in a session: it sends requests, reads and writes files and prints. Everything it can
see and change is one value.

1. `Session` is that value. The API is given by the answers that it has left; a request beyond them
   is never answered, and the command is interrupted while it waits.
2. `Job` is a computation in a session that may fail; what it did before a failure stays done.
3. `Job.ask`, `Job.print` and `Job.withFiles` are the ways in which a job touches its session.
4. `Job.runIn_bind` says that a job goes on from where the one before it ended, or not at all.
-/

namespace FleetControl

/-- What a command sees and changes. -/
structure Session where
  /-- The answers that the API has left. -/
  answers : List Answer
  /-- The requests that were sent, in order. -/
  sent : List Request
  files : Files
  /-- The output of the command. -/
  out : Text.Sink
  /-- What was shown of its progress. -/
  progress : String
  /-- Whether progress is shown on a terminal. -/
  terminal : Bool
  /-- How long the pauses took, in milliseconds. -/
  elapsed : Nat
  deriving Repr, Inhabited

namespace Session

def start (answers : List Answer) (files : Files) (out : Text.Sink) : Session :=
  ⟨answers, [], files, out, "", false, 0⟩

/-- The request of a session that began with this many answers and waits for one more. -/
def pending? (session : Session) (answers : Nat) : Option Request :=
  session.sent[answers]?

end Session

/-- A computation in a session. -/
abbrev Job (α : Type) := ExceptT Error (StateM Session) α

namespace Job

/-- The result of a job and the session after it. -/
def runIn {α : Type} (job : Job α) (session : Session) : Except Error α × Session :=
  Id.run (StateT.run (ExceptT.run job) session)

def ofResult {α : Type} (result : Except Error α) : Job α :=
  match result with
  | .ok a => pure a
  | .error e => throw e

/-- A job that may find the configuration at fault. -/
def ofConfig {α : Type} (result : Except ConfigFault α) : Job α :=
  match result with
  | .ok a => pure a
  | .error fault => throw (.config fault)

/-- A job that may find an argument at fault. -/
def ofArgument {α : Type} (result : Except ArgumentFault α) : Job α :=
  match result with
  | .ok a => pure a
  | .error fault => throw (.invalidArgument fault)

/-- What sending a request does to a session. -/
def exchange (request : Request) (session : Session) : Except Error Answer × Session :=
  let session := { session with sent := session.sent ++ [request] }
  match session.answers with
  | [] => (.error .interrupted, session)
  | answer :: rest => (.ok answer, { session with answers := rest })

/-- Sends a request and gives the body of its answer, if the API accepted it. -/
def ask (prepared : Except RequestFault Request) : Job String := do
  match prepared with
  | .error fault => throw (.request fault)
  | .ok request => do
    let (answer, session) := exchange request (← get)
    set session
    ofResult (answer.bind fun answer => answer.accepted request)

/-- Sends a request and fits the body of its answer. -/
def askFor {α : Type} (decoder : Json.Decoder α) (prepared : Except RequestFault Request) :
    Job α := do
  let body ← ask prepared
  ofResult (Answer.decode decoder body)

def write (writer : Text.Sink → Text.Sink × Except Error Unit) : Job Unit := do
  let session ← get
  let (out, result) := writer session.out
  set { session with out }
  ofResult result

def print (format : Format) (output : Output) : Job Unit :=
  write (output.write format)

def printLine (line : String) : Job Unit :=
  write fun sink => Output.writeLines sink [line]

def files : Job Files := do
  return (← get).files

def withFiles (change : Files → Except FileFault Files) : Job Unit := do
  let session ← get
  match change session.files with
  | .ok files => set { session with files }
  | .error fault => throw (.file fault)

/-! ## Small lemmas -/

@[simp] theorem runIn_pure {α : Type} (a : α) (session : Session) :
    (pure a : Job α).runIn session = (.ok a, session) := rfl

@[simp] theorem runIn_throw {α : Type} (e : Error) (session : Session) :
    (throw e : Job α).runIn session = (.error e, session) := rfl

theorem runIn_bind {α β : Type} (job : Job α) (next : α → Job β) (session : Session) :
    (job >>= next).runIn session =
      match job.runIn session with
      | (.ok a, session) => (next a).runIn session
      | (.error e, session) => (.error e, session) := by
  unfold runIn ExceptT.run StateT.run Id.run
  simp only [bind, ExceptT.bind, ExceptT.mk, StateT.bind]
  cases job session with
  | mk result session => cases result <;> rfl

theorem runIn_ofResult {α : Type} (result : Except Error α) (session : Session) :
    (ofResult result).runIn session = (result, session) := by
  cases result <;> rfl

end Job

end FleetControl
