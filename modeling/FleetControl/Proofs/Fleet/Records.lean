import FleetControl.Fleet.Instance
import FleetControl.Workflow.Record
import FleetControl.Proofs.Json.Records

/-!
# The records of the API are read as they were written

For each record of a workflow and for instances and snapshots, `names` are the names of its fields,
`values` what is written of them, `toJson_eq` says that the written form is made of the two, and
`rereads` that a record is read back from it if its parts are. What is proved:

1. `stable` for each record: what is read of a text of integers, whichever names it uses and whatever
   it leaves out, is read back from what is written of it. Only free-form parts can fail to be: a
   metadata map and the parameters of an instance. They are sorted and nest no deeper than was read.
2. `Event.says_of_read`: an event keeps every pair that has no field of its own, and never one that
   has; `EventTag.parse_text`: a tag is canonical once it is written.
3. `Resource.status_of_read`: a status that is given is written, be it blank.
4. `records_roundTrip` puts these together.
-/

namespace FleetControl

open Json

def Json.member? : Json → String → Option Json
  | .object fields, key => Dictionary.get? fields key
  | _, _ => none

/-! ## Events -/

namespace EventTag

/-- A tag that is recognised is one of four, and its canonical text is recognised as it. -/
theorem parse_text_of_known? {bare : String} {tag : EventTag} (h : known? bare = some tag) :
    parse tag.text = tag := by
  unfold known? at h
  split at h
  · cases h
    decide +kernel
  · split at h
    · cases h
      decide +kernel
    · split at h
      · cases h
        decide +kernel
      · split at h
        · cases h
          decide +kernel
        · cases h

theorem parse_text (s : String) : parse (parse s).text = parse s := by
  cases known : known? (String.ofList (bare (Text.lower (Text.trim s)).toList)) with
  | none =>
    have other : parse s = .other s := by simp only [parse, known, Option.getD_none]
    rw [other, text, other]
  | some tag =>
    have this : parse s = tag := by simp only [parse, known, Option.getD_some]
    rw [this, parse_text_of_known? known]

theorem eq_of_parse_eq_other {s tag : String} (h : parse s = .other tag) : tag = s := by
  cases known : known? (String.ofList (bare (Text.lower (Text.trim s)).toList)) with
  | none =>
    simp only [parse, known, Option.getD_none] at h
    cases h
    rfl
  | some found =>
    have same : found = .other tag := by simpa only [parse, known, Option.getD_some] using h
    subst same
    unfold known? at known
    grind

end EventTag

namespace Event

def names : List FieldNames := [["eventType"], ["eventTime"], ["message"]]

/-- The values of the fields, in the order of their names. -/
def values (event : Event) : List (Option Json) :=
  [some (.string event.tag.text), event.time.map .string, event.message.map .string]

theorem toJson_eq (event : Event) :
    event.toJson = .object (Slots.pairs names event.values ++ event.metadata) := by
  simp [toJson, names, values, Slots.pairs, Json.optional]

theorem eq_ok_of_decoder {d : Nat} {t : Tree} {event : Event} (h : decoder d t = .ok event) :
    ∃ slots tag time message metadata, Slots.ofOpenTree "DebugEvent" names d t = .ok slots ∧
      slots.required 0 "eventType" Decoder.string = .ok tag ∧ slots.rest = .ok metadata ∧
      event = ⟨EventTag.parse tag, time, message, metadata⟩ := by
  unfold decoder at h
  obtain ⟨slots, read, h⟩ := eq_ok_of_bind h
  obtain ⟨tag, tagRead, h⟩ := eq_ok_of_bind h
  obtain ⟨time, -, h⟩ := eq_ok_of_bind h
  obtain ⟨message, -, h⟩ := eq_ok_of_bind h
  obtain ⟨metadata, kept, h⟩ := eq_ok_of_bind h
  exact ⟨slots, tag, time, message, metadata, read, tagRead, kept, (Except.ok.inj h).symm⟩

theorem stable : Stable decoder toJson 0 := by
  intro d t event _ integral h
  obtain ⟨slots, tag, time, message, metadata, read, -, kept, rfl⟩ := eq_ok_of_decoder h
  obtain ⟨fields, rfl, rfl, placed⟩ := Slots.ofOpenTree_eq_ok read
  obtain ⟨-, others, -⟩ := Slots.ofObject_eq_ok placed
  obtain ⟨plain, restAgain⟩ := Slots.rest_again (Slots.integral_ofObject integral placed) kept
  have nowhere : ∀ kv ∈ metadata, Slots.position? names kv.1 = none := by
    intro kv member
    obtain ⟨u, there⟩ := Slots.mem_others_of_rest kept member
    rw [others] at there
    exact (Slots.position?_of_mem_unknown there).1
  refine ⟨?_, ?_⟩
  · rw [toJson_eq]
    exact Slots.plain_pairs (by simp [values]) plain names
  · obtain ⟨again, reread, holds, left⟩ := Slots.ofOpenTree_written "DebugEvent" names (by decide)
      (values ⟨EventTag.parse tag, time, message, metadata⟩) rfl nowhere slots.depth
    have tagRead := holds.required (i := 0) (.string _ _) rfl "eventType"
    have timeRead := holds.text (i := 1) rfl
    have messageRead := holds.text (i := 2) rfl
    have restRead := restAgain again holds.depth left
    rw [toJson_eq, decoder, ← names.eq_1]
    simp only [reread, tagRead, timeRead, messageRead, restRead, EventTag.parse_text, bind, Except.bind]
    rfl

/-- Whether an event says what the pairs of its text say: the tag in its canonical form, and under
every key that is not that of a field, the value of the last pair. -/
def Says (event : Event) (fields : List (Option String × Tree)) : Prop :=
  (∃ tag, (some "eventType", .string (some tag)) ∈ fields ∧
    event.toJson.member? "eventType" = some (.string (EventTag.parse tag).text)) ∧
  ∀ key, Slots.position? names key = none →
    event.toJson.member? key = (Tree.lastOf? fields key).bind (Tree.toJson? (maxDepth - 1))

theorem member?_of_unknown (event : Event) {key : String}
    (nowhere : Slots.position? names key = none) :
    event.toJson.member? key = event.metadata.get? key := by
  have other : ∀ field ∈ names, field.contains key = false := by
    simpa [Slots.position?] using nowhere
  simp only [names, List.forall_mem_cons, List.contains_cons, List.contains_nil, Bool.or_false,
    beq_eq_false_iff_ne] at other
  obtain ⟨tag, time, message, -⟩ := other
  simp only [toJson, Json.member?]
  cases event.time <;> cases event.message <;>
    simp [Dictionary.get?, Json.optional, tag.symm, time.symm, message.symm]

theorem says_of_read {s : String} {fields : List (Option String × Tree)} {event : Event}
    (parsed : Tree.parse s = .ok (.object fields)) (h : Json.read decoder s = .ok event) :
    event.Says fields := by
  simp only [Json.read, parsed] at h
  obtain ⟨slots, tag, time, message, metadata, found, tagRead, kept, rfl⟩ := eq_ok_of_decoder h
  obtain ⟨depth, others, origin⟩ := Slots.ofObject_eq_ok (d := maxDepth - 1) found
  refine ⟨⟨tag, ?_, by simp [toJson, Json.member?, Dictionary.get?]⟩, fun key nowhere => ?_⟩
  · obtain ⟨key, member, position⟩ := (origin 0 _).mp (Slots.tree?_of_required_string tagRead)
    have same : key = "eventType" := by
      simp only [names, Slots.position?, List.findIdx?_cons, List.contains_cons, List.contains_nil,
        Bool.or_false] at position
      grind
    rwa [same] at member
  · have here := Slots.get?_rest kept key
    rw [others, Slots.lastOf?_unknown nowhere, depth] at here
    rw [member?_of_unknown _ nowhere]
    exact here

end Event

/-! ## Streams of events -/

namespace Steps

def values (steps : Steps) : List (Option Json) :=
  Step.ordered.map fun step => some (.array ((steps.events step).map Event.toJson))

theorem toJson_eq (steps : Steps) : steps.toJson = .object (Slots.pairs names steps.values) :=
  rfl

/-- The stream of an absent field is a level of its own when it is written. -/
theorem rereads_nil {d : Nat} (deep : 1 ≤ d) : Rereads (Decoder.list Event.decoder)
    (fun events => .array (events.map Event.toJson)) d [] := by
  obtain ⟨d, rfl⟩ := Nat.exists_eq_add_of_le' deep
  exact .list (List.forall_mem_nil _)

theorem rereads {steps : Steps} {d : Nat} (each : ∀ step,
    Rereads (Decoder.list Event.decoder) (fun events => .array (events.map Event.toJson)) d
      (steps.events step)) : Rereads decoder toJson (d + 1) steps := by
  refine ⟨?_, ?_⟩
  · rw [toJson_eq, ← List.append_nil (Slots.pairs _ _)]
    refine Slots.plain_pairs (fun value member => ?_) (by trivial) names
    obtain ⟨step, -, rfl⟩ := List.mem_map.mp member
    exact plainValue_some.mpr (each step).plain
  · obtain ⟨again, reread, holds⟩ := Slots.ofTree_written "WorkflowSteps" names (by decide)
      steps.values rfl d
    rw [toJson_eq, decoder]
    simp only [reread, bind, Except.bind, holds.defaulted (i := 0) (each .bootstrap) rfl,
      holds.defaulted (i := 1) (each .storage) rfl, holds.defaulted (i := 2) (each .network) rfl,
      holds.defaulted (i := 3) (each .compute) rfl, holds.defaulted (i := 4) (each .deployment) rfl,
      holds.defaulted (i := 5) (each .monitoring) rfl, holds.defaulted (i := 6) (each .unknown) rfl]
    rfl

theorem rereads_empty {d : Nat} (deep : 2 ≤ d) : Rereads decoder toJson d empty := by
  obtain ⟨d, rfl⟩ := Nat.exists_eq_add_of_le' deep
  refine rereads fun step => ?_
  rw [events_empty]
  exact rereads_nil (Nat.le_add_left 1 d)

theorem eq_ok_of_decoder {d : Nat} {t : Tree} {steps : Steps} (h : decoder d t = .ok steps) :
    ∃ slots, Slots.ofTree "WorkflowSteps" names d t = .ok slots ∧ ∀ step, ∃ i,
      Slots.position? names step.text = some i ∧
        slots.defaulted i [] (Decoder.list Event.decoder) = .ok (steps.events step) := by
  unfold decoder at h
  obtain ⟨slots, read, h⟩ := eq_ok_of_bind h
  dsimp only at h
  obtain ⟨bootstrap, read₀, h⟩ := eq_ok_of_bind h
  obtain ⟨storage, read₁, h⟩ := eq_ok_of_bind h
  obtain ⟨network, read₂, h⟩ := eq_ok_of_bind h
  obtain ⟨compute, read₃, h⟩ := eq_ok_of_bind h
  obtain ⟨deployment, read₄, h⟩ := eq_ok_of_bind h
  obtain ⟨monitoring, read₅, h⟩ := eq_ok_of_bind h
  obtain ⟨unknown, read₆, h⟩ := eq_ok_of_bind h
  cases h
  refine ⟨slots, read, fun step => ?_⟩
  cases step with
  | bootstrap => exact ⟨0, by decide, read₀⟩
  | storage => exact ⟨1, by decide, read₁⟩
  | network => exact ⟨2, by decide, read₂⟩
  | compute => exact ⟨3, by decide, read₃⟩
  | deployment => exact ⟨4, by decide, read₄⟩
  | monitoring => exact ⟨5, by decide, read₅⟩
  | unknown => exact ⟨6, by decide, read₆⟩

theorem stable : Stable decoder toJson 2 := by
  intro d t steps deep integral h
  obtain ⟨slots, read, streams⟩ := eq_ok_of_decoder h
  obtain ⟨rfl, sound⟩ := Slots.integral_ofTree integral read
  refine rereads fun step => ?_
  obtain ⟨i, -, stream⟩ := streams step
  exact Event.stable.list.defaulted (Nat.le_of_succ_le_succ deep) sound
    (rereads_nil (Nat.le_of_succ_le_succ deep)) stream

end Steps

/-! ## Resources and workflows -/

namespace Resource

def names : List FieldNames :=
  [["resourceId"], ["resourceName"], ["steps", "workflowSteps"], ["status"]]

/-- The values of the fields, in the order of their names. -/
def values (resource : Resource) : List (Option Json) :=
  [some (.string resource.id), some (.string resource.name), some resource.steps.toJson,
    resource.explicit.map .string]

theorem toJson_eq (resource : Resource) :
    resource.toJson = .object (Slots.pairs names resource.values) := by
  simp [toJson, names, values, Slots.pairs, Json.optional]

theorem rereads {resource : Resource} {d : Nat}
    (steps : Rereads Steps.decoder Steps.toJson d resource.steps) :
    Rereads decoder toJson (d + 1) resource := by
  refine ⟨?_, ?_⟩
  · rw [toJson_eq, ← List.append_nil (Slots.pairs _ _)]
    exact Slots.plain_pairs (by simp [values, steps.plain]) (by trivial) names
  · obtain ⟨again, reread, holds⟩ := Slots.ofTree_written "ResourceWorkflowSnapshot" names (by decide)
      resource.values rfl d
    rw [toJson_eq, decoder, ← names.eq_1]
    simp only [reread, bind, Except.bind, holds.defaulted (i := 0) (.string _ _) rfl,
      holds.defaulted (i := 1) (.string _ _) rfl, holds.defaulted (i := 2) steps rfl,
      holds.text (i := 3) rfl]
    rfl

theorem stable : Stable decoder toJson 3 := by
  intro d t resource deep integral h
  unfold decoder at h
  obtain ⟨slots, read, h⟩ := eq_ok_of_bind h
  obtain ⟨id, -, h⟩ := eq_ok_of_bind h
  obtain ⟨name, -, h⟩ := eq_ok_of_bind h
  obtain ⟨steps, stepsRead, h⟩ := eq_ok_of_bind h
  obtain ⟨explicit, -, h⟩ := eq_ok_of_bind h
  cases h
  obtain ⟨rfl, sound⟩ := Slots.integral_ofTree integral read
  have deep : 2 ≤ slots.depth := Nat.le_of_succ_le_succ deep
  exact rereads (Steps.stable.defaulted deep sound (Steps.rereads_empty deep) stepsRead)

/-- Whether a text gives a resource a status, by name or by position. -/
def StatusGiven (status : String) : Tree → Prop
  | .object fields => (some "status", .string (some status)) ∈ fields
  | .array items => items[3]? = some (.string (some status))
  | _ => False

/-- A status that is given, be it blank, is written as it is. -/
theorem status_of_read {s status : String} {t : Tree} {resource : Resource}
    (parsed : Tree.parse s = .ok t) (h : Json.read decoder s = .ok resource)
    (given : StatusGiven status t) :
    resource.toJson.member? "status" = some (.string status) := by
  simp only [Json.read, parsed] at h
  unfold decoder at h
  obtain ⟨slots, read, h⟩ := eq_ok_of_bind h
  obtain ⟨id, -, h⟩ := eq_ok_of_bind h
  obtain ⟨name, -, h⟩ := eq_ok_of_bind h
  obtain ⟨steps, -, h⟩ := eq_ok_of_bind h
  obtain ⟨explicit, explicitRead, h⟩ := eq_ok_of_bind h
  cases h
  have here : slots.tree? 3 = some (.string (some status)) := by
    cases t with
    | object fields =>
      obtain ⟨-, -, origin⟩ := Slots.ofObject_eq_ok (d := maxDepth - 1) read
      exact (origin 3 _).mpr ⟨"status", given, rfl⟩
    | array items => exact Slots.tree?_of_items read given
    | null | bool | number | string => exact given.elim
  have same : explicit = some status := by
    simp only [Slots.defaulted, here] at explicitRead
    exact (Except.ok.inj explicitRead).symm
  simp [toJson, Json.member?, Dictionary.get?, Json.optional, same]

end Resource

namespace WorkflowRecord

/-- The names of the fields of a workflow record. -/
def names : List FieldNames := [["workflowId"], ["status", "workflowStatus"]]

/-- The values of the fields, in the order of their names. -/
def values (record : WorkflowRecord) : List (Option Json) :=
  [record.id.map .string, some (.string record.status)]

theorem toJson_eq (record : WorkflowRecord) :
    record.toJson = .object (Slots.pairs names record.values) := by
  simp [toJson, names, values, Slots.pairs, Json.optional]

theorem rereads (record : WorkflowRecord) (d : Nat) : Rereads decoder toJson (d + 1) record := by
  refine ⟨?_, ?_⟩
  · rw [toJson_eq, ← List.append_nil (Slots.pairs _ _)]
    exact Slots.plain_pairs (by simp [values]) (by trivial) names
  · obtain ⟨again, reread, holds⟩ := Slots.ofTree_written "WorkflowInfo" names (by decide)
      record.values rfl d
    rw [toJson_eq, decoder, ← names.eq_1]
    simp only [reread, bind, Except.bind, holds.text (i := 0) rfl,
      holds.required (i := 1) (.string _ _) rfl]
    rfl

theorem stable : Stable decoder toJson 0 := by
  intro d t record _ integral h
  obtain ⟨slots, read, -⟩ := eq_ok_of_bind h
  obtain ⟨rfl, -⟩ := Slots.integral_ofTree integral read
  exact rereads record slots.depth

end WorkflowRecord

namespace Fetch

def names : List FieldNames := [["resources"], ["workflow", "workflowInfo"]]

/-- The values of the fields, in the order of their names. -/
def values (fetch : Fetch) : List (Option Json) :=
  [some (.array (fetch.resources.map Resource.toJson)),
    some ((fetch.workflow.map WorkflowRecord.toJson).getD .null)]

theorem toJson_eq (fetch : Fetch) : fetch.toJson = .object (Slots.pairs names fetch.values) :=
  rfl

theorem rereads {fetch : Fetch} {d : Nat}
    (resources : Rereads (Decoder.list Resource.decoder)
      (fun resources => .array (resources.map Resource.toJson)) d fetch.resources)
    (workflow : Rereads (Decoder.nullable WorkflowRecord.decoder)
      (fun workflow => (workflow.map WorkflowRecord.toJson).getD .null) d fetch.workflow) :
    Rereads decoder toJson (d + 1) fetch := by
  refine ⟨?_, ?_⟩
  · rw [toJson_eq, ← List.append_nil (Slots.pairs _ _)]
    exact Slots.plain_pairs (by simp [values, resources.plain, workflow.plain]) (by trivial) names
  · obtain ⟨again, reread, holds⟩ := Slots.ofTree_written "WorkflowFetch" names (by decide)
      fetch.values rfl d
    rw [toJson_eq, decoder, ← names.eq_1]
    simp only [reread, bind, Except.bind, holds.defaulted (i := 0) resources rfl,
      holds.defaulted (i := 1) workflow rfl]
    rfl

theorem stable : Stable decoder toJson 5 := by
  intro d t fetch deep integral h
  unfold decoder at h
  obtain ⟨slots, read, h⟩ := eq_ok_of_bind h
  obtain ⟨resources, resourcesRead, h⟩ := eq_ok_of_bind h
  obtain ⟨workflow, workflowRead, h⟩ := eq_ok_of_bind h
  cases h
  obtain ⟨rfl, sound⟩ := Slots.integral_ofTree integral read
  have deep : 4 ≤ slots.depth := Nat.le_of_succ_le_succ deep
  refine rereads ?_ ?_
  · refine Resource.stable.list.defaulted deep sound ?_ resourcesRead
    obtain ⟨d, same⟩ := Nat.exists_eq_add_of_le' deep
    rw [same]
    exact .list (List.forall_mem_nil _)
  · have record := WorkflowRecord.stable.omitted (Nat.zero_le _) sound workflowRead
    exact .nullable fun a same => ⟨record a same, Json.noConfusion⟩

end Fetch

/-! ## Instances and snapshots -/

namespace Instance

def names : List FieldNames :=
  [["id", "instanceId"], ["status"], ["resourceId"], ["cloudProvider"], ["region"],
    ["tierVersion"], ["createdAt"], ["resultParams"]]

/-- The values of the fields, in the order of their names. -/
def values (instance_ : Instance) : List (Option Json) :=
  [some (.string instance_.id), some (.string instance_.status), instance_.resourceId.map .string,
    instance_.cloudProvider.map .string, instance_.region.map .string,
    instance_.tierVersion.map .string, instance_.createdAt.map .string,
    if instance_.resultParams.isEmpty then none else some (.object instance_.resultParams)]

theorem toJson_eq (instance_ : Instance) :
    instance_.toJson = .object (Slots.pairs names instance_.values) := by
  by_cases none : instance_.resultParams.isEmpty <;>
    simp [toJson, names, values, Slots.pairs, Json.optional, none]

theorem rereads {instance_ : Instance} {d : Nat}
    (params : Rereads Decoder.fieldMap Json.object d instance_.resultParams) :
    Rereads decoder toJson (d + 1) instance_ := by
  refine ⟨?_, ?_⟩
  · rw [toJson_eq, ← List.append_nil (Slots.pairs _ _)]
    refine Slots.plain_pairs ?_ (by trivial) names
    by_cases none : instance_.resultParams.isEmpty <;> simp [values, none, params.plain, PlainValue]
  · obtain ⟨again, reread, holds⟩ := Slots.ofTree_written "Instance" names (by decide)
      instance_.values rfl d
    have paramsRead : again.defaulted 7 [] Decoder.fieldMap = .ok instance_.resultParams := by
      by_cases none : instance_.resultParams.isEmpty
      · have absent : again.tree? 7 = .none := by simp [holds.tree, values, none]
        simp [Slots.defaulted, absent, List.isEmpty_iff.mp none]
      · exact holds.defaulted params (by simp [values, none]) []
    rw [toJson_eq, decoder, ← names.eq_1]
    simp only [reread, bind, Except.bind, holds.defaulted (i := 0) (.string _ _) rfl,
      holds.defaulted (i := 1) (.string _ _) rfl, holds.text (i := 2) rfl, holds.text (i := 3) rfl,
      holds.text (i := 4) rfl, holds.text (i := 5) rfl, holds.text (i := 6) rfl, paramsRead]
    rfl

theorem stable : Stable decoder toJson 2 := by
  intro d t instance_ deep integral h
  unfold decoder at h
  obtain ⟨slots, read, h⟩ := eq_ok_of_bind h
  dsimp only at h
  obtain ⟨id, -, h⟩ := eq_ok_of_bind h
  obtain ⟨status, -, h⟩ := eq_ok_of_bind h
  obtain ⟨resourceId, -, h⟩ := eq_ok_of_bind h
  obtain ⟨cloudProvider, -, h⟩ := eq_ok_of_bind h
  obtain ⟨region, -, h⟩ := eq_ok_of_bind h
  obtain ⟨tierVersion, -, h⟩ := eq_ok_of_bind h
  obtain ⟨createdAt, -, h⟩ := eq_ok_of_bind h
  obtain ⟨params, paramsRead, h⟩ := eq_ok_of_bind h
  cases h
  obtain ⟨rfl, sound⟩ := Slots.integral_ofTree integral read
  have empty : Rereads Decoder.fieldMap Json.object slots.depth [] := by
    obtain ⟨d, same⟩ := Nat.exists_eq_add_of_le' (Nat.le_of_succ_le_succ deep)
    rw [same]
    exact ⟨trivial, rfl⟩
  exact rereads (Stable.fieldMap.defaulted (Nat.zero_le _) sound empty paramsRead)

end Instance

namespace Snapshot

def names : List FieldNames :=
  [["snapshotId", "id"], ["status"], ["progress"], ["snapshotType"], ["region"],
    ["sourceInstanceId"], ["createdTime"], ["completedTime"]]

/-- The values of the fields, in the order of their names. -/
def values (snapshot : Snapshot) : List (Option Json) :=
  [some (.string snapshot.id), some (.string snapshot.status), snapshot.progress.map Json.nat,
    snapshot.snapshotType.map .string, snapshot.region.map .string,
    snapshot.sourceInstanceId.map .string, snapshot.createdTime.map .string,
    snapshot.completedTime.map .string]

theorem toJson_eq (snapshot : Snapshot) :
    snapshot.toJson = .object (Slots.pairs names snapshot.values) := by
  simp [toJson, names, values, Slots.pairs, Json.optional]

theorem rereads {snapshot : Snapshot} {d : Nat}
    (progress : ∀ n ∈ snapshot.progress, Rereads Decoder.nat32 Json.nat d n) :
    Rereads decoder toJson (d + 1) snapshot := by
  have plain : PlainValue (snapshot.progress.map Json.nat) := by
    intro v member
    obtain ⟨n, there, rfl⟩ := Option.map_eq_some_iff.mp member
    exact (progress n there).plain
  refine ⟨?_, ?_⟩
  · rw [toJson_eq, ← List.append_nil (Slots.pairs _ _)]
    exact Slots.plain_pairs (by simp [values, plain]) (by trivial) names
  · obtain ⟨again, reread, holds⟩ := Slots.ofTree_written "Snapshot" names (by decide)
      snapshot.values rfl d
    have progressRead := holds.omitted (i := 2) (fun n same => ⟨progress n same, Json.noConfusion⟩) rfl
    rw [toJson_eq, decoder, ← names.eq_1]
    simp only [reread, bind, Except.bind, holds.defaulted (i := 0) (.string _ _) rfl,
      holds.defaulted (i := 1) (.string _ _) rfl, progressRead, holds.text (i := 3) rfl,
      holds.text (i := 4) rfl, holds.text (i := 5) rfl, holds.text (i := 6) rfl,
      holds.text (i := 7) rfl]
    rfl

theorem stable : Stable decoder toJson 0 := by
  intro d t snapshot _ integral h
  unfold decoder at h
  obtain ⟨slots, read, h⟩ := eq_ok_of_bind h
  dsimp only at h
  obtain ⟨id, -, h⟩ := eq_ok_of_bind h
  obtain ⟨status, -, h⟩ := eq_ok_of_bind h
  obtain ⟨progress, progressRead, h⟩ := eq_ok_of_bind h
  obtain ⟨snapshotType, -, h⟩ := eq_ok_of_bind h
  obtain ⟨region, -, h⟩ := eq_ok_of_bind h
  obtain ⟨sourceInstanceId, -, h⟩ := eq_ok_of_bind h
  obtain ⟨createdTime, -, h⟩ := eq_ok_of_bind h
  obtain ⟨completedTime, -, h⟩ := eq_ok_of_bind h
  cases h
  obtain ⟨rfl, sound⟩ := Slots.integral_ofTree integral read
  exact rereads (Stable.nat32.omitted (Nat.zero_le _) sound progressRead)

end Snapshot

/-- Every record is read back from what is written of it, and is then written as the same text. What
is written of an event is its metadata under the same keys and its tag in canonical form, which is
the tag as it was if the tag is not recognised; what is written of a resource is the status that was
given, be it blank. -/
theorem records_roundTrip :
    (RoundTrips Event.decoder Event.toJson ∧ RoundTrips Steps.decoder Steps.toJson ∧
      RoundTrips Resource.decoder Resource.toJson ∧
      RoundTrips WorkflowRecord.decoder WorkflowRecord.toJson ∧
      RoundTrips Fetch.decoder Fetch.toJson ∧ RoundTrips Instance.decoder Instance.toJson ∧
      RoundTrips Snapshot.decoder Snapshot.toJson) ∧
    (∀ s fields event, Tree.parse s = .ok (.object fields) → Json.read Event.decoder s = .ok event →
      event.Says fields) ∧
    (∀ tag, EventTag.parse (EventTag.parse tag).text = EventTag.parse tag ∧
      ∀ other, EventTag.parse tag = .other other → other = tag) ∧
    ∀ s t resource status, Tree.parse s = .ok t → Json.read Resource.decoder s = .ok resource →
      Resource.StatusGiven status t →
      resource.toJson.member? "status" = some (.string status) := by
  refine ⟨⟨Event.stable.roundTrips (by decide), Steps.stable.roundTrips (by decide),
    Resource.stable.roundTrips (by decide), WorkflowRecord.stable.roundTrips (by decide),
    Fetch.stable.roundTrips (by decide), Instance.stable.roundTrips (by decide),
    Snapshot.stable.roundTrips (by decide)⟩, ?_, ?_, ?_⟩
  · intro s fields event parsed h
    exact Event.says_of_read parsed h
  · intro tag
    exact ⟨EventTag.parse_text tag, fun other => EventTag.eq_of_parse_eq_other⟩
  · intro s t resource status parsed h given
    exact Resource.status_of_read parsed h given

/-- An event whose text has a tag in another spelling, a key twice, an object out of order and a
null. -/
def eventSample : Json :=
  .object [("eventType", .string " FAILED "), ("step", .int 1), ("eventTime", .null),
    ("step", .object [("zone", .array [.int (-5), .null]), ("a", .string "\n")])]

theorem records_roundTrip_event :
    ∃ event : Event, Json.read Event.decoder eventSample.compact = .ok event ∧
      event.toJson.compact = "\x7b\"eventType\":\"WorkflowStepFailed\"," ++
        "\"step\":\x7b\"a\":\"\\n\",\"zone\":[-5,null]\x7d\x7d" ∧
      Json.read Event.decoder event.toJson.compact = .ok event := by
  have plain : eventSample.Plain := by
    simp only [eventSample, Plain, PlainFields, PlainItems, InRange]
    decide
  have integral : (Tree.ofJson eventSample).Integral := by
    simp [eventSample, Tree.ofJson, Tree.ofFields, Tree.ofItems, Tree.Integral, Tree.IntegralFields,
      Tree.IntegralItems, InRange]
  have parsed := Tree.parse_compact plain
  have decoded : Json.read Event.decoder eventSample.compact = .ok ⟨.failed, none, none,
      [("step", .object [("a", .string "\n"), ("zone", .array [.int (-5), .null])])]⟩ := by
    simp only [Json.read, parsed]
    rfl
  obtain ⟨⟨events, -⟩, -⟩ := records_roundTrip
  refine ⟨_, decoded, by decide +kernel, ?_⟩
  exact (events _ _ _ parsed integral decoded _ List.mem_cons_self).1

end FleetControl
