import FleetControl.Text.Blank

/-!
# Deployment actions

1. `Action.parse` reads the name of an action in any letter case.
2. `PowerAction` are the actions that switch an instance on and off; `PowerAction.action` is the
   action whose workflow each of them starts.
-/

namespace FleetControl

/-- An action with a workflow of its own. -/
inductive Action where
  | create
  | modify
  | delete
  | restore
  | start
  | stop
  | restart
  | upgrade
  deriving DecidableEq, Repr, Inhabited

namespace Action

def all : List Action := [.create, .modify, .delete, .restore, .start, .stop, .restart, .upgrade]

def text : Action → String
  | .create => "create"
  | .modify => "modify"
  | .delete => "delete"
  | .restore => "restore"
  | .start => "start"
  | .stop => "stop"
  | .restart => "restart"
  | .upgrade => "upgrade"

def ofText? (name : String) : Option Action :=
  all.find? fun action => action.text == name

/-- Reads the name of an action, letter case aside; otherwise gives the wording of the refusal. -/
def parse (name : String) : Except String Action :=
  let name := Text.lower name
  match ofText? name with
  | some action => .ok action
  | none => .error ("unknown action type: " ++ name)

end Action

/-- An action that switches an instance. -/
inductive PowerAction where
  | start
  | stop
  | restart
  deriving DecidableEq, Repr, Inhabited

namespace PowerAction

def segment : PowerAction → String
  | .start => "start"
  | .stop => "stop"
  | .restart => "restart"

/-- The action whose workflow a power action starts. -/
def action : PowerAction → Action
  | .start => .start
  | .stop => .stop
  | .restart => .restart

end PowerAction

end FleetControl
