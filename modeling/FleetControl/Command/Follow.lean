import FleetControl.Command.Session
import FleetControl.Progress.Terminal

/-!
# Following a workflow

1. `Follow.run` polls the workflow of a query on the answers that the session has left.
2. `Follow.conclude` prints how the run ended: a summary, or for people a line about the failure.
3. `Follow.job` does both; progress is shown to people only.
-/

namespace FleetControl.Follow

/-- Prints how a run ended. An interruption is not worth a line. -/
def conclude (query : Query) (format : Format) (ending : Ending) : Job Unit :=
  match ending with
  | .concluded (.ok report) =>
    Job.print format (.summary ⟨query.instanceId, query.action.text, report⟩)
  | .concluded (.error e) => do
    if !e.isCancelled && !format.isJson then
      Job.printLine
        ("✗ " ++ query.action.text ++ " of " ++ query.instanceId ++ " failed: " ++ e.message)
    throw (.workflow e)
  | .clockEnded => throw .clockEnded

def shown (terminal : Bool) (run : Run) : String :=
  ((Terminal.new terminal .unbounded).run run.calls).sink.text

/-- The run over fetches, and the fetches that it made. -/
def ofFetches (cadence : Cadence) (fetches : List Collected) : Run × List Collected :=
  let run := Run.ofReplies cadence 0 none (fetches.filterMap Collected.reply?)
  (run, fetches.take run.fetches)

/-- What a run does to its session. -/
def runIn (client : Client) (query : Query) (format : Format) (interval : Nat) (session : Session) :
    Ending × Session :=
  let fetches := Fetch.gather client query session.answers
  let (run, made) := ofFetches (.ofInterval interval) fetches
  let progress := if format.isJson then "" else shown session.terminal run
  (run.ending, { session with
    sent := session.sent ++ made.flatMap (·.sent)
    answers := (made.getLast?.map (·.rest)).getD session.answers
    progress := session.progress ++ progress
    elapsed := session.elapsed + run.elapsed })

/-- Polls the workflow of a query until a fetch decides. -/
def run (client : Client) (query : Query) (format : Format) (interval : Nat) : Job Ending := do
  let (ending, session) := runIn client query format interval (← get)
  set session
  return ending

def job (client : Client) (query : Query) (format : Format) (interval : Nat) : Job Unit := do
  let ending ← run client query format interval
  conclude query format ending

end FleetControl.Follow
