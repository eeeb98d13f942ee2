import FleetControl.Json.Decode
import FleetControl.Json.Printer
import FleetControl.Text.Blank

/-!
# Debug events

What a step of a workflow reports while it runs.

1. `EventTag.parse` reads a tag: blanks around it, letter case and one of the leading words
   `workflowstep` and `step` do not matter; a tag outside the vocabulary is kept as it is.
2. `EventTag.text` is the canonical tag; reading it again gives the same tag.
3. `Event.decoder` and `Event.toJson` are the written form of an event; fields without a meaning of
   their own are kept as `metadata`.
-/

namespace FleetControl

/-- What kind of event a tag names. -/
inductive EventTag where
  | started
  | debug
  | completed
  | failed
  | other (tag : String)
  deriving DecidableEq, Repr, Inhabited

namespace EventTag

/-- The tag without its leading word; the longer word is tried first. -/
def bare (tag : List Char) : List Char :=
  match Text.after? "workflowstep".toList tag with
  | some rest => rest
  | none => (Text.after? "step".toList tag).getD tag

/-- The kind that a bare tag in lower case names. -/
def known? (bare : String) : Option EventTag :=
  if bare = "started" || bare = "start" then some .started
  else if bare = "debug" then some .debug
  else if bare = "completed" || bare = "complete" then some .completed
  else if bare = "failed" || bare = "failure" then some .failed
  else none

def parse (tag : String) : EventTag :=
  let lowered := Text.lower (Text.trim tag)
  (known? (String.ofList (bare lowered.toList))).getD (.other tag)

def text : EventTag → String
  | .started => "WorkflowStepStarted"
  | .debug => "WorkflowStepDebug"
  | .completed => "WorkflowStepCompleted"
  | .failed => "WorkflowStepFailed"
  | .other tag => tag

end EventTag

/-- An event of one resource and step. -/
structure Event where
  tag : EventTag
  time : Option String
  message : Option String
  metadata : Json.Fields
  deriving Repr, Inhabited

namespace Event

def ofTag (tag : EventTag) : Event := ⟨tag, none, none, []⟩

open Json in
/-- Reads an event; only its tag must be there. -/
def decoder : Decoder Event := fun depth t => do
  let slots ← Slots.ofOpenTree "DebugEvent" [["eventType"], ["eventTime"], ["message"]] depth t
  let tag ← slots.required 0 "eventType" Decoder.string
  let time ← slots.defaulted 1 none (Decoder.nullable Decoder.string)
  let message ← slots.defaulted 2 none (Decoder.nullable Decoder.string)
  let metadata ← slots.rest
  pure ⟨EventTag.parse tag, time, message, metadata⟩

/-- The written form of an event: the named fields first, absent ones left out. -/
def toJson (event : Event) : Json :=
  .object (("eventType", .string event.tag.text) ::
    Json.optional "eventTime" (event.time.map .string) ++
    Json.optional "message" (event.message.map .string) ++ event.metadata)

end Event

end FleetControl
