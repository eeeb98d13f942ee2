import FleetControl.Poll.Report
import FleetControl.Progress.Board
import FleetControl.Workflow.Error

/-!
# Applying a fetch

What one fetch does to the board and whether it ends the run.

1. `observeAll` shows every resource of a fetch; a failed one is resolved on the spot.
2. `Applied.ofFetch` adds the decision: without a workflow record everything shown so far is done;
   a failed resource stops all others; a signal that ends the workflow resolves what is left.
-/

namespace FleetControl

/-- How a run ends: with a report or with an error. -/
abbrev Conclusion := Except WorkflowError Report

/-- What applying a fetch gives: the board, the calls made and the end of the run, if it is one. -/
structure Applied where
  board : Board
  calls : List Call
  conclusion : Option Conclusion

def outcomeOf : ResourceStatus → Outcome
  | .failed => .error
  | _ => .success

/-- Shows one resource under its status, and resolves it if it failed. -/
def observeResource (board : Board) (resource : Resource) : Board × List Call :=
  let status := resource.status
  let line := resource.summaryLine status
  let (board, calls) := board.observe resource.key resource.displayName line
  if status = .failed then
    let (board, more) := board.resolve resource.key .error line
    (board, calls ++ more)
  else (board, calls)

def observeAll (board : Board) : List Resource → Board × List Call
  | [] => (board, [])
  | resource :: rest =>
    let (board, calls) := observeResource board resource
    let (board, more) := observeAll board rest
    (board, calls ++ more)

def statuses (resources : List Resource) : List (String × ResourceStatus) :=
  resources.map fun r => (r.key, r.status)

/-- The spinners that are left, each with its last name and a status, as reports. -/
def leftOver (board : Board) (status : ResourceStatus) : List ResourceReport :=
  board.unresolved.map fun key => ⟨key, board.nameOf key, status⟩

/-- How a report without a line of its own is resolved. -/
def plainResolution (report : ResourceReport) : String × Outcome × String :=
  (report.key, outcomeOf report.status, report.name ++ ": " ++ report.status.text)

/-- The line of a forced status: the summary of the first resource with the key. -/
def forcedLine (resources : List Resource) (report : ResourceReport) : String :=
  match resources.find? fun r => r.key == report.key with
  | some resource => resource.summaryLine report.status
  | none => report.name ++ ": " ++ report.status.text

namespace Applied

/-- The end without a workflow record: every spinner that is left completed. -/
def withoutWorkflow (board : Board) (polls : UInt32) : Applied :=
  let reports := leftOver board .completed
  let (board, calls) := board.resolveAll (reports.map plainResolution)
  ⟨board, calls, some (.ok ⟨none, .success, polls, reports⟩)⟩

/-- The end by a failed resource: every spinner that is left stopped. -/
def byFailure (board : Board) (key : String) : Applied :=
  let stopped := board.unresolved.map fun other =>
    (other, Outcome.error, board.nameOf other ++ ": stopped")
  let name := board.nameOf key
  let (board, calls) := board.resolveAll stopped
  ⟨board, calls, some (.error (.resourceFailed name))⟩

/-- The end by a signal: the forced statuses first, then the spinners that are left. -/
def bySignal (board : Board) (resources : List Resource) (verdict : Verdict)
    (forced : List (String × ResourceStatus)) (status : String) (polls : UInt32) : Applied :=
  let present := forced.map fun (key, s) => (⟨key, board.nameOf key, s⟩ : ResourceReport)
  let (board, calls) := board.resolveAll
    (present.map fun r => (r.key, outcomeOf r.status, forcedLine resources r))
  let absent := leftOver board verdict.fallback
  let (board, more) := board.resolveAll (absent.map plainResolution)
  let conclusion := match verdict with
    | .success => .ok ⟨some status, verdict, polls, present ++ absent⟩
    | .failure => .error (.workflowFailed status)
  ⟨board, calls ++ more, some conclusion⟩

/-- Applies the fetch of a poll; `polls` counts it. -/
def ofFetch (board : Board) (polls : UInt32) (fetch : Fetch) : Applied :=
  match fetch.workflow with
  | none => withoutWorkflow board polls
  | some record =>
    let (board, calls) := observeAll board fetch.resources
    let rest : Applied := match Decision.evaluate record.signal (statuses fetch.resources) with
      | .continue => ⟨board, [], none⟩
      | .resourceFailed key => byFailure board key
      | .terminal verdict forced =>
        bySignal board fetch.resources verdict forced record.status polls
    { rest with calls := calls ++ rest.calls }

end Applied

end FleetControl
