import FleetControl.Workflow.Resource

/-!
# The workflow record and when polling ends

1. `Signal.ofStatus` reads the status of a workflow; only success, failed and cancelled end it.
2. `Decision.evaluate` decides after a poll: a failed resource stops polling whatever the signal
   says, a signal that ends the workflow forces every resource that is not finished.
3. `Fetch` is what one poll brings: the resources and the workflow record, if there is one.
-/

namespace FleetControl

/-- A workflow status, interpreted. -/
inductive Signal where
  | success
  | failed
  | cancelled
  | inProgress (status : String)
  deriving DecidableEq, Repr, Inhabited

namespace Signal

/-- Reads a status, blanks around it and letter case aside. -/
def ofStatus (status : String) : Signal :=
  let word := Text.lower (Text.trim status)
  if word = "success" then .success
  else if word = "failed" then .failed
  else if word = "cancelled" then .cancelled
  else .inProgress status

def isTerminal : Signal → Bool
  | .inProgress _ => false
  | _ => true

/-- The name of a signal; a status that says nothing final is shown as it is. -/
def text : Signal → String
  | .success => "success"
  | .failed => "failed"
  | .cancelled => "cancelled"
  | .inProgress status => status

end Signal

/-- The record of a workflow. -/
structure WorkflowRecord where
  id : Option String
  status : String
  deriving DecidableEq, Repr, Inhabited

namespace WorkflowRecord

def ofStatus (status : String) : WorkflowRecord := ⟨none, status⟩

def signal (record : WorkflowRecord) : Signal := Signal.ofStatus record.status

open Json in
/-- Reads a record; its status must be there. -/
def decoder : Decoder WorkflowRecord := fun depth t => do
  let slots ← Slots.ofTree "WorkflowInfo" [["workflowId"], ["status", "workflowStatus"]] depth t
  let id ← slots.defaulted 0 none (Decoder.nullable Decoder.string)
  let status ← slots.required 1 "status" Decoder.string
  pure ⟨id, status⟩

def toJson (record : WorkflowRecord) : Json :=
  .object (Json.optional "workflowId" (record.id.map .string) ++
    [("status", .string record.status)])

end WorkflowRecord

/-- The outcome of a whole workflow. -/
inductive Verdict where
  | success
  | failure
  deriving DecidableEq, Repr, Inhabited

namespace Verdict

def text : Verdict → String
  | .success => "success"
  | .failure => "failure"

/-- The status that a verdict forces on a resource that is not finished. -/
def fallback : Verdict → ResourceStatus
  | .success => .completed
  | .failure => .failed

end Verdict

/-- What to do after a poll. -/
inductive Decision where
  | continue
  | resourceFailed (key : String)
  | terminal (verdict : Verdict) (forced : List (String × ResourceStatus))
  deriving DecidableEq, Repr, Inhabited

namespace Decision

/-- The status under a verdict: a finished resource keeps its own. -/
def force (verdict : Verdict) (status : ResourceStatus) : ResourceStatus :=
  if status.isTerminal then status else verdict.fallback

/-- The verdict of a signal that ends the workflow. -/
def verdictOf : Signal → Verdict
  | .success => .success
  | _ => .failure

/-- Decides from the signal and the statuses of the resources in order. -/
def evaluate (signal : Signal) (resources : List (String × ResourceStatus)) : Decision :=
  match resources.find? fun (_, status) => status == .failed with
  | some (key, _) => .resourceFailed key
  | none =>
    if signal.isTerminal then
      let verdict := verdictOf signal
      .terminal verdict (resources.map fun (key, status) => (key, force verdict status))
    else .continue

end Decision

/-- What one poll brings. -/
structure Fetch where
  resources : List Resource
  workflow : Option WorkflowRecord
  deriving Repr, Inhabited

namespace Fetch

def empty : Fetch := ⟨[], none⟩

open Json in
/-- Reads a fetch; everything may be absent. -/
def decoder : Decoder Fetch := fun depth t => do
  let slots ← Slots.ofTree "WorkflowFetch" [["resources"], ["workflow", "workflowInfo"]] depth t
  let resources ← slots.defaulted 0 [] (Decoder.list Resource.decoder)
  let workflow ← slots.defaulted 1 none (Decoder.nullable WorkflowRecord.decoder)
  pure ⟨resources, workflow⟩

/-- The written form of a fetch; an absent workflow is null. -/
def toJson (fetch : Fetch) : Json :=
  .object [("resources", .array (fetch.resources.map Resource.toJson)),
    ("workflow", (fetch.workflow.map WorkflowRecord.toJson).getD .null)]

end Fetch

end FleetControl
