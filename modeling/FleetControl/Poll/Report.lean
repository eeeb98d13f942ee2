import FleetControl.Workflow.Record

/-!
# Reports of a poll run

What a run that ended well has to say: the last status seen, the verdict, how many fetches it took
and how each resource ended. Fetches are counted in 32 bits.
-/

namespace FleetControl

/-- How one resource ended. -/
structure ResourceReport where
  key : String
  name : String
  status : ResourceStatus
  deriving DecidableEq, Repr, Inhabited

/-- How a workflow ended; `workflowStatus` is `none` if there was none to follow. -/
structure Report where
  workflowStatus : Option String
  verdict : Verdict
  polls : UInt32
  resources : List ResourceReport
  deriving DecidableEq, Repr, Inhabited

namespace Report

def fields (report : Report) : List (String × Json) :=
  [("workflow_status", Json.stringOrNull report.workflowStatus),
    ("verdict", .string report.verdict.text),
    ("polls", Json.nat report.polls.toNat),
    ("resources", .array (report.resources.map fun r =>
      .object [("key", .string r.key), ("name", .string r.name),
        ("status", .string r.status.text)]))]

end Report

end FleetControl
