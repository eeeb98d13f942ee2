import FleetControl.Workflow.Event

/-!
# Workflow steps

A resource is provisioned in seven steps, each with its own stream of events.

1. `StepStatus.classify` gives the class of a stream: the highest kind of event in it, wherever it
   stands.
2. `Steps` holds a stream for each step; `Steps.events` looks one up, `Steps.modify` changes one,
   `Steps.append` adds another page of events step by step.
3. `Steps.toList` goes through the streams by `Steps.table`, in display order, and `Steps.classes`
   classifies them. `Steps.decoder` and `Steps.toJson` know each stream by the name of its field.
-/

namespace FleetControl

/-- A phase of provisioning a resource; `unknown` collects events without a phase. -/
inductive Step where
  | bootstrap
  | storage
  | network
  | compute
  | deployment
  | monitoring
  | unknown
  deriving DecidableEq, Repr, Inhabited

namespace Step

def ordered : List Step :=
  [.bootstrap, .storage, .network, .compute, .deployment, .monitoring, .unknown]

def text : Step → String
  | .bootstrap => "bootstrap"
  | .storage => "storage"
  | .network => "network"
  | .compute => "compute"
  | .deployment => "deployment"
  | .monitoring => "monitoring"
  | .unknown => "unknown"

end Step

/-- The class of a stream of events. -/
inductive StepStatus where
  | failed
  | completed
  | debug
  | started
  | pending
  | unknown
  deriving DecidableEq, Repr, Inhabited

namespace StepStatus

def has (tag : EventTag) (events : List Event) : Bool :=
  events.any (fun event => event.tag == tag)

/-- The class of a stream: pending if it is empty, else the highest of failed, completed, debug and
started that occurs in it, else unknown. -/
def classify (events : List Event) : StepStatus :=
  if events.isEmpty then .pending
  else if has .failed events then .failed
  else if has .completed events then .completed
  else if has .debug events then .debug
  else if has .started events then .started
  else .unknown

def icon : StepStatus → String
  | .failed => "✗"
  | .completed => "✓"
  | .debug => "◐"
  | .started => "◐"
  | .pending => "○"
  | .unknown => "?"

/-- Whether a class is that of a stream with events. -/
def hasEvents (status : StepStatus) : Bool :=
  status != .pending

def text : StepStatus → String
  | .failed => "failed"
  | .completed => "completed"
  | .debug => "debug"
  | .started => "started"
  | .pending => "pending"
  | .unknown => "unknown"

end StepStatus

/-- The stream of events of every step. -/
structure Steps where
  bootstrap : List Event
  storage : List Event
  network : List Event
  compute : List Event
  deployment : List Event
  monitoring : List Event
  unknown : List Event
  deriving Repr, Inhabited

namespace Steps

def empty : Steps := ⟨[], [], [], [], [], [], []⟩

def events (steps : Steps) : Step → List Event
  | .bootstrap => steps.bootstrap
  | .storage => steps.storage
  | .network => steps.network
  | .compute => steps.compute
  | .deployment => steps.deployment
  | .monitoring => steps.monitoring
  | .unknown => steps.unknown

def modify (steps : Steps) (step : Step) (change : List Event → List Event) : Steps :=
  match step with
  | .bootstrap => { steps with bootstrap := change steps.bootstrap }
  | .storage => { steps with storage := change steps.storage }
  | .network => { steps with network := change steps.network }
  | .compute => { steps with compute := change steps.compute }
  | .deployment => { steps with deployment := change steps.deployment }
  | .monitoring => { steps with monitoring := change steps.monitoring }
  | .unknown => { steps with unknown := change steps.unknown }

def push (steps : Steps) (step : Step) (event : Event) : Steps :=
  steps.modify step (· ++ [event])

def clear (steps : Steps) (step : Step) : Steps :=
  steps.modify step fun _ => []

/-- Where the stream of each step is, in display order. -/
def table : List (Step × (Steps → List Event)) :=
  [(.bootstrap, bootstrap), (.storage, storage), (.network, network), (.compute, compute),
    (.deployment, deployment), (.monitoring, monitoring), (.unknown, unknown)]

def toList (steps : Steps) : List (Step × List Event) :=
  table.map fun (step, stream) => (step, stream steps)

def classes (steps : Steps) : List (Step × StepStatus) :=
  steps.toList.map fun (step, events) => (step, StepStatus.classify events)

def isEmpty (steps : Steps) : Bool :=
  steps.toList.all fun (_, events) => events.isEmpty

/-- Adds the events of another value at the end, step by step. -/
def append (steps other : Steps) : Steps where
  bootstrap := steps.bootstrap ++ other.bootstrap
  storage := steps.storage ++ other.storage
  network := steps.network ++ other.network
  compute := steps.compute ++ other.compute
  deployment := steps.deployment ++ other.deployment
  monitoring := steps.monitoring ++ other.monitoring
  unknown := steps.unknown ++ other.unknown

def names : List Json.FieldNames :=
  [["bootstrap"], ["storage"], ["network"], ["compute"], ["deployment"], ["monitoring"],
    ["unknown"]]

open Json in
/-- Reads the streams; an absent one is empty. -/
def decoder : Decoder Steps := fun depth t => do
  let slots ← Slots.ofTree "WorkflowSteps" names depth t
  let stream (i : Nat) := slots.defaulted i [] (Decoder.list Event.decoder)
  pure
    { bootstrap := ← stream 0
      storage := ← stream 1
      network := ← stream 2
      compute := ← stream 3
      deployment := ← stream 4
      monitoring := ← stream 5
      unknown := ← stream 6 }

/-- The written form of the streams: every field, those without events too. -/
def toJson (steps : Steps) : Json :=
  let written (events : List Event) : Json := .array (events.map Event.toJson)
  .object [("bootstrap", written steps.bootstrap), ("storage", written steps.storage),
    ("network", written steps.network), ("compute", written steps.compute),
    ("deployment", written steps.deployment), ("monitoring", written steps.monitoring),
    ("unknown", written steps.unknown)]

/-! ## Small lemmas -/

/-- The table has the stream of every step once, in display order. -/
theorem toList_eq (steps : Steps) :
    steps.toList = Step.ordered.map fun step => (step, steps.events step) := rfl

@[simp] theorem events_empty (step : Step) : empty.events step = [] := by
  cases step <;> rfl

theorem events_modify (steps : Steps) (step other : Step) (change : List Event → List Event) :
    (steps.modify step change).events other =
      if step = other then change (steps.events other) else steps.events other := by
  cases step <;> cases other <;> rfl

@[simp] theorem events_append (steps other : Steps) (step : Step) :
    (steps.append other).events step = steps.events step ++ other.events step := by
  cases step <;> rfl

end Steps

end FleetControl
