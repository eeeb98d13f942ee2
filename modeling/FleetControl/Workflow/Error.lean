/-!
# How following a workflow may fail

`WorkflowError` lists the ways, `WorkflowError.message` words them. Only `cancelled` is an
interruption; the others are failures.
-/

namespace FleetControl

/-- Why following a workflow ended without success. -/
inductive WorkflowError where
  | resourceFailed (name : String)
  | workflowFailed (status : String)
  | cancelled
  | fetch (reason : String)
  deriving DecidableEq, Repr, Inhabited

namespace WorkflowError

def message : WorkflowError → String
  | .resourceFailed name => "resource " ++ name ++ " failed"
  | .workflowFailed status => "workflow finished with status " ++ status
  | .cancelled => "workflow polling cancelled"
  | .fetch reason => "failed to fetch workflow events: " ++ reason

def isCancelled : WorkflowError → Bool
  | .cancelled => true
  | _ => false

end WorkflowError

end FleetControl
