import FleetControl.Workflow.Step

/-!
# Resources of a workflow

1. `Resource` is one resource as a poll sees it; `Resource.key` tells resources apart, and
   `Resource.displayName` is shown.
2. `ResourceStatus.ofExplicit` reads a status that the API gives, `ResourceStatus.ofClasses` infers
   one from the classes of the steps; `Resource.status` takes the first if it is not blank.
3. `Resource.summaryLine` is the line that a display shows.
-/

namespace FleetControl

/-- The state of a resource as a whole. -/
inductive ResourceStatus where
  | pending
  | running
  | completed
  | failed
  deriving DecidableEq, Repr, Inhabited

namespace ResourceStatus

def text : ResourceStatus → String
  | .pending => "pending"
  | .running => "running"
  | .completed => "completed"
  | .failed => "failed"

def isTerminal : ResourceStatus → Bool
  | .completed => true
  | .failed => true
  | .pending => false
  | .running => false

/-- Words for a resource that is done; a stop leaves its resources `stopped`. -/
def completedWords : List String := ["success", "completed", "complete", "ready", "stopped"]

/-- Words for a resource that failed; a cancelled one did. -/
def failedWords : List String := ["failed", "failure", "error", "cancelled", "canceled"]

/-- Words for a resource that has not begun. -/
def pendingWords : List String := ["pending", "not_started", "queued"]

/-- Reads a status word, blanks around it and letter case aside; any other word means running. -/
def ofExplicit (word : String) : ResourceStatus :=
  let word := Text.lower (Text.trim word)
  if completedWords.contains word then .completed
  else if failedWords.contains word then .failed
  else if pendingWords.contains word then .pending
  else .running

/-- Infers a status: failed if a step failed, pending if no step has events, completed if every step
with events completed, else running. -/
def ofClasses (classes : List (Step × StepStatus)) : ResourceStatus :=
  let active := classes.filter fun (_, status) => status.hasEvents
  if classes.any fun (_, status) => status == .failed then .failed
  else if active.isEmpty then .pending
  else if active.all fun (_, status) => status == .completed then .completed
  else .running

end ResourceStatus

/-- One resource as a poll sees it; `explicit` is the status that the API gives. -/
structure Resource where
  id : String
  name : String
  steps : Steps
  explicit : Option String
  deriving Repr, Inhabited

namespace Resource

def new (id name : String) : Resource := ⟨id, name, Steps.empty, none⟩

/-- What tells resources apart: the id, or the name of a resource without one. -/
def key (resource : Resource) : String :=
  if resource.id.isEmpty then resource.name else resource.id

/-- What is shown: the name, or the id of a resource without one. -/
def displayName (resource : Resource) : String :=
  if resource.name.isEmpty then resource.id else resource.name

/-- The status that the API gives, unless it is blank. -/
def explicit? (resource : Resource) : Option String :=
  resource.explicit.filter fun word => !Text.isBlankText word

/-- The status of a resource: the given one, or what its events tell. -/
def status (resource : Resource) : ResourceStatus :=
  match resource.explicit? with
  | some word => ResourceStatus.ofExplicit word
  | none => ResourceStatus.ofClasses resource.steps.classes

/-- The line that shows a resource under a status: the steps with events, each with its glyph. -/
def summaryLine (resource : Resource) (status : ResourceStatus) : String :=
  let active := resource.steps.classes.filter fun (_, cls) => cls.hasEvents
  let marks := active.map fun (step, cls) => step.text ++ " " ++ cls.icon
  let head := resource.displayName ++ ": " ++ status.text
  if marks.isEmpty then head else head ++ " [" ++ Text.join "  " marks ++ "]"

open Json in
/-- Reads a resource; everything may be absent. -/
def decoder : Decoder Resource := fun depth t => do
  let slots ← Slots.ofTree "ResourceWorkflowSnapshot"
    [["resourceId"], ["resourceName"], ["steps", "workflowSteps"], ["status"]] depth t
  let id ← slots.defaulted 0 "" Decoder.string
  let name ← slots.defaulted 1 "" Decoder.string
  let steps ← slots.defaulted 2 Steps.empty Steps.decoder
  let explicit ← slots.defaulted 3 none (Decoder.nullable Decoder.string)
  pure ⟨id, name, steps, explicit⟩

def toJson (resource : Resource) : Json :=
  .object ([("resourceId", .string resource.id), ("resourceName", .string resource.name),
    ("steps", resource.steps.toJson)] ++
    Json.optional "status" (resource.explicit.map .string))

end Resource

end FleetControl
