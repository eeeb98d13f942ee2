import FleetControl.Workflow.Action

/-!
# Which workflow to follow

A `Query` names one workflow: the instance in its service environment and the action.
-/

namespace FleetControl

/-- A service environment. -/
structure Scope where
  service : String
  environment : String
  deriving DecidableEq, Repr, Inhabited

/-- The workflow of one action on one instance; `enhanced` asks for the events of every step. -/
structure Query where
  scope : Scope
  instanceId : String
  action : Action
  enhanced : Bool
  deriving DecidableEq, Repr, Inhabited

/-- The query with which a command follows a workflow. -/
def Query.following (scope : Scope) (instanceId : String) (action : Action) : Query :=
  ⟨scope, instanceId, action, true⟩

end FleetControl
