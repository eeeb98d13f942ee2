import FleetControl.Json.Decode

/-!
# Instances and snapshots

The records of the fleet API. Every field of a record may be absent; a record is read from an object
or from an array of its fields.

1. `Instance` is a deployed instance, `Snapshot` the state of one at a moment.
2. `NewInstance` is what is sent to create an instance.
-/

namespace FleetControl

/-- A deployed instance. -/
structure Instance where
  id : String
  status : String
  resourceId : Option String
  cloudProvider : Option String
  region : Option String
  tierVersion : Option String
  createdAt : Option String
  resultParams : Json.Fields
  deriving Repr, Inhabited

namespace Instance

open Json in
def decoder : Decoder Instance := fun depth t => do
  let slots ← Slots.ofTree "Instance"
    [["id", "instanceId"], ["status"], ["resourceId"], ["cloudProvider"], ["region"],
      ["tierVersion"], ["createdAt"], ["resultParams"]] depth t
  let text (i : Nat) := slots.defaulted i none (Decoder.nullable Decoder.string)
  let id ← slots.defaulted 0 "" Decoder.string
  let status ← slots.defaulted 1 "" Decoder.string
  let resourceId ← text 2
  let cloudProvider ← text 3
  let region ← text 4
  let tierVersion ← text 5
  let createdAt ← text 6
  let resultParams ← slots.defaulted 7 [] Decoder.fieldMap
  pure { id, status, resourceId, cloudProvider, region, tierVersion, createdAt, resultParams }

/-- The written form of an instance; parameters are left out if there are none. -/
def toJson (instance_ : Instance) : Json :=
  let text (key : String) (value : Option String) := Json.optional key (value.map .string)
  .object ([("id", .string instance_.id), ("status", .string instance_.status)] ++
    text "resourceId" instance_.resourceId ++ text "cloudProvider" instance_.cloudProvider ++
    text "region" instance_.region ++ text "tierVersion" instance_.tierVersion ++
    text "createdAt" instance_.createdAt ++
    if instance_.resultParams.isEmpty then []
    else [("resultParams", .object instance_.resultParams)])

end Instance

/-- A snapshot of an instance; `progress` is a percentage. -/
structure Snapshot where
  id : String
  status : String
  progress : Option Nat
  snapshotType : Option String
  region : Option String
  sourceInstanceId : Option String
  createdTime : Option String
  completedTime : Option String
  deriving DecidableEq, Repr, Inhabited

namespace Snapshot

open Json in
def decoder : Decoder Snapshot := fun depth t => do
  let slots ← Slots.ofTree "Snapshot"
    [["snapshotId", "id"], ["status"], ["progress"], ["snapshotType"], ["region"],
      ["sourceInstanceId"], ["createdTime"], ["completedTime"]] depth t
  let text (i : Nat) := slots.defaulted i none (Decoder.nullable Decoder.string)
  let id ← slots.defaulted 0 "" Decoder.string
  let status ← slots.defaulted 1 "" Decoder.string
  let progress ← slots.defaulted 2 none (Decoder.nullable Decoder.nat32)
  let snapshotType ← text 3
  let region ← text 4
  let sourceInstanceId ← text 5
  let createdTime ← text 6
  let completedTime ← text 7
  pure { id, status, progress, snapshotType, region, sourceInstanceId, createdTime, completedTime }

def toJson (snapshot : Snapshot) : Json :=
  let text (key : String) (value : Option String) := Json.optional key (value.map .string)
  .object ([("snapshotId", .string snapshot.id), ("status", .string snapshot.status)] ++
    Json.optional "progress" (snapshot.progress.map Json.nat) ++
    text "snapshotType" snapshot.snapshotType ++ text "region" snapshot.region ++
    text "sourceInstanceId" snapshot.sourceInstanceId ++ text "createdTime" snapshot.createdTime ++
    text "completedTime" snapshot.completedTime)

end Snapshot

/-- What is sent to create an instance. -/
structure NewInstance where
  resourceId : String
  cloudProvider : String
  region : String
  params : Json.Fields
  deriving Repr, Inhabited

def NewInstance.toJson (new : NewInstance) : Json :=
  .object [("resourceId", .string new.resourceId), ("cloudProvider", .string new.cloudProvider),
    ("region", .string new.region), ("requestParams", .object new.params)]

end FleetControl
