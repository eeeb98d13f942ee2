import FleetControl.Fleet.Instance
import FleetControl.Fleet.Page
import FleetControl.Fleet.Reason
import FleetControl.Fleet.Request

/-!
# Answers of the fleet API

1. `Answer.accepted` tells an answer that is an error from one that is not; `Answer.errorMessage` is
   what an error says.
2. `Answer.decode` fits the body of an accepted answer; the readers below are the bodies of the
   operations.
-/

namespace FleetControl

/-- What sending a request comes to, after the redirects that the sender follows. A body that broke
off counts as empty: nobody reads it where none is expected, and as a document neither can be read.
-/
inductive Answer where
  /-- The connection closed without an answer. -/
  | dropped
  /-- The request was redirected and not answered from there. -/
  | failed (fault : RequestFault)
  | answered (status : Nat) (body : String)
  deriving DecidableEq, Repr, Inhabited

namespace Answer

/-- The body of an answer with a status; some statuses have none. -/
def bodyOf (status : Nat) (body : String) : String :=
  if status = 204 || status = 304 then "" else body

def isSuccess (status : Nat) : Bool :=
  200 ≤ status && status < 300

open Json in
def messageDecoder : Decoder (Option String) := fun depth t => do
  let slots ← Slots.ofTree "ApiErrorBody" [["message"]] depth t
  slots.optional 0 Decoder.string

/-- A text without a byte order mark in front. -/
def withoutMark (s : String) : String :=
  match s.toList with
  | '\uFEFF' :: rest => String.ofList rest
  | _ => s

/-- What an error says: the message in its body, or the body, or the phrase of its status. -/
def errorMessage (status : Nat) (body : String) : String :=
  let body := withoutMark body
  let told := match Json.read messageDecoder body with
    | .ok message => message.filter fun m => !Text.isBlankText m
    | .error _ => none
  let trimmed := Text.trim body
  match told with
  | some message => message
  | none => if trimmed.isEmpty then (reasonPhrase? status).getD "unknown error" else trimmed

/-- The body of an answer, if the API accepted the request. -/
def accepted (request : Request) : Answer → Except Error String
  | .dropped => .error (.request (.unanswered request.address.text))
  | .failed fault => .error (.request fault)
  | .answered status body =>
    let body := bodyOf status body
    if isSuccess status then .ok body else .error (.api status (errorMessage status body))

def decode {α : Type} (decoder : Json.Decoder α) (body : String) : Except Error α :=
  match Json.read decoder body with
  | .ok value => .ok value
  | .error _ => .error (.request .undecodable)

open Json in
def instancesDecoder : Decoder (List Instance) := fun depth t => do
  let slots ← Slots.ofTree "InstanceList" [["instances", "resourceInstances"]] depth t
  slots.defaulted 0 [] (Decoder.list Instance.decoder)

open Json in
/-- Reads the id of an instance that was created. -/
def instanceIdDecoder : Decoder String := fun depth t => do
  let slots ← Slots.ofTree "CreatedInstance" [["id", "instanceId"]] depth t
  slots.required 0 "id" Decoder.string

open Json in
def snapshotsDecoder : Decoder (List Snapshot) := fun depth t => do
  let slots ← Slots.ofTree "SnapshotList" [["snapshots"]] depth t
  slots.defaulted 0 [] (Decoder.list Snapshot.decoder)

open Json in
def snapshotIdDecoder : Decoder String := fun depth t => do
  let slots ← Slots.ofTree "CreatedSnapshot" [["snapshotId", "id"]] depth t
  slots.required 0 "snapshotId" Decoder.string

open Json in
def tokenDecoder : Decoder String := fun depth t => do
  let slots ← Slots.ofTree "SignInResponse" [["jwtToken"]] depth t
  slots.required 0 "jwtToken" Decoder.string

end Answer

end FleetControl
