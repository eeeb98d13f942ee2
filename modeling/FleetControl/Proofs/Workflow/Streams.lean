import FleetControl.Proofs.Fleet.Records
import FleetControl.Proofs.Text.Sorted
import FleetControl.Proofs.Workflow.Statuses

/-!
# Every step has one stream

The streams of a value are reached in several ways: by a step, by a field, in a walk through all of
them, as classes and as fields of an object.

1. `Steps.Shows` says that all ways lead to the same stream of each step; they do for every value
   (`Steps.shows_events`). `Steps.events_of_read` is the way back from an object.
2. `Steps.Edit` is an event added, a stream cleared or a page appended. `Edit.on?` is what it does to
   one stream, and `Steps.events_edits` says that after many of them a stream is what those about its
   step made of it.
3. A value is given by its streams (`Steps.ext_events`), so pages append as lists do.
   `Steps.shows_edited` puts these together.
-/

namespace FleetControl

open Json

namespace Json.Slots

theorem mem_of_position? {names : List FieldNames} {key : String} {i : Nat}
    (h : position? names key = some i) : ∃ field, names[i]? = some field ∧ key ∈ field := by
  obtain ⟨inside, named, -⟩ := List.findIdx?_eq_some_iff_getElem.mp h
  exact ⟨names[i], List.getElem?_eq_getElem inside, by simpa using named⟩

end Json.Slots

namespace Steps

/-! ## The ways to a stream -/

/-- Every way to the stream of a step leads to the one that is given for it. -/
structure Shows (steps : Steps) (stream : Step → List Event) : Prop where
  events : ∀ step, steps.events step = stream step
  fields : steps = ⟨stream .bootstrap, stream .storage, stream .network, stream .compute,
    stream .deployment, stream .monitoring, stream .unknown⟩
  listed : steps.toList = Step.ordered.map fun step => (step, stream step)
  classified : steps.classes =
    Step.ordered.map fun step => (step, StepStatus.classify (stream step))
  written : steps.toJson = .object (Step.ordered.map fun step =>
    (step.text, .array ((stream step).map Event.toJson)))
  named : ∀ step,
    steps.toJson.member? step.text = some (.array ((stream step).map Event.toJson))

theorem nodup_texts : (Step.ordered.map Step.text).Nodup := by decide

/-- The streams of a value are what every way leads to. -/
theorem shows_events (steps : Steps) : steps.Shows steps.events where
  events _ := rfl
  fields := rfl
  listed := toList_eq steps
  classified := by
    unfold classes
    rw [toList_eq, List.map_map]
    rfl
  written := rfl
  named step := by
    have distinct : (Dictionary.keys (Step.ordered.map fun step =>
        (step.text, Json.array ((steps.events step).map Event.toJson)))).Nodup := nodup_texts
    exact Dictionary.get?_of_mem distinct (List.mem_map.mpr ⟨step, mem_ordered step, rfl⟩)

theorem ext_events {steps other : Steps} (same : ∀ step, steps.events step = other.events step) :
    steps = other := by
  rw [steps.shows_events.fields, other.shows_events.fields]
  simp only [same]

theorem isEmpty_iff (steps : Steps) :
    steps.isEmpty ↔ ∀ cls ∈ steps.classes, cls.2 = .pending := by
  rw [forall_mem_classes (p := (· = .pending))]
  unfold isEmpty
  rw [toList_eq]
  simp [mem_ordered, StepStatus.classify_eq_pending]

theorem eq_text_of_position? {step : Step} {key : String} {i : Nat}
    (here : Slots.position? names step.text = some i)
    (there : Slots.position? names key = some i) : key = step.text := by
  have single : ∀ field ∈ names, ∃ name, field = [name] := by simp [names]
  obtain ⟨field, at_, mine⟩ := Slots.mem_of_position? here
  obtain ⟨other, also, theirs⟩ := Slots.mem_of_position? there
  cases at_.symm.trans also
  obtain ⟨name, rfl⟩ := single field (List.mem_of_getElem? at_)
  rw [List.mem_singleton.mp mine, List.mem_singleton.mp theirs]

/-- The stream of a step is read from the pair with its name; without one it is empty. -/
theorem events_of_read {d : Nat} {fields : List (Option String × Tree)} {steps : Steps}
    (h : decoder (d + 1) (.object fields) = .ok steps) (step : Step) :
    (∀ t, (some step.text, t) ∈ fields →
        Decoder.list Event.decoder d t = .ok (steps.events step)) ∧
      ((∀ t, (some step.text, t) ∉ fields) → steps.events step = []) := by
  obtain ⟨slots, read, streams⟩ := eq_ok_of_decoder h
  obtain ⟨i, position, stream⟩ := streams step
  obtain ⟨rfl, -, origin⟩ := Slots.ofObject_eq_ok read
  unfold Slots.defaulted at stream
  refine ⟨fun t member => ?_, fun absent => ?_⟩
  · rw [(origin i t).mpr ⟨_, member, position⟩] at stream
    exact stream
  · cases placed : slots.tree? i with
    | none =>
      rw [placed] at stream
      exact (Except.ok.inj stream).symm
    | some t =>
      obtain ⟨key, member, there⟩ := (origin i t).mp placed
      rw [eq_text_of_position? position there] at member
      exact absurd member (absent t)

/-! ## Edits -/

/-- A change of the streams. -/
inductive Edit where
  | push (step : Step) (event : Event)
  | clear (step : Step)
  | append (page : Steps)

def edit (steps : Steps) : Edit → Steps
  | .push step event => steps.push step event
  | .clear step => steps.clear step
  | .append page => steps.append page

/-- What an edit does to the stream of a step, if it is about that step. A page is about all. -/
def Edit.on? (step : Step) : Edit → Option (List Event → List Event)
  | .push target event => if target = step then some (· ++ [event]) else none
  | .clear target => if target = step then some fun _ => [] else none
  | .append page => some (· ++ page.events step)

/-- The stream of a step after several edits: those about the step, in order, on what it was. -/
def edited (steps : Steps) (edits : List Edit) (step : Step) : List Event :=
  (edits.filterMap (Edit.on? step)).foldl (fun events change => change events) (steps.events step)

theorem events_change (steps : Steps) (target step : Step) (change : List Event → List Event) :
    (steps.modify target change).events step =
      ((if target = step then some change else none).getD id) (steps.events step) := by
  rw [events_modify]
  by_cases about : target = step
  · rw [if_pos about, if_pos about]
    rfl
  · rw [if_neg about, if_neg about]
    rfl

/-- One edit changes a stream as it says, and only if it is about its step. -/
theorem events_edit (steps : Steps) (e : Edit) (step : Step) :
    (steps.edit e).events step = ((e.on? step).getD id) (steps.events step) := by
  cases e with
  | push target event => exact events_change steps target step (· ++ [event])
  | clear target => exact events_change steps target step fun _ => []
  | append page => exact events_append steps page step

/-- After several edits a stream is what those about its step made of it. -/
theorem events_edits (steps : Steps) (edits : List Edit) (step : Step) :
    (edits.foldl edit steps).events step = steps.edited edits step := by
  unfold edited
  induction edits generalizing steps with
  | nil => rfl
  | cons e edits ih =>
    rw [List.foldl_cons, ih, events_edit]
    cases about : e.on? step with
    | none =>
      rw [List.filterMap_cons_none about]
      rfl
    | some change =>
      rw [List.filterMap_cons_some about, List.foldl_cons]
      rfl

/-! ## Pages -/

theorem append_assoc (xs ys zs : Steps) : (xs.append ys).append zs = xs.append (ys.append zs) := by
  refine ext_events fun step => ?_
  simp only [events_append, List.append_assoc]

theorem empty_append (steps : Steps) : empty.append steps = steps := by
  refine ext_events fun step => ?_
  rw [events_append, events_empty, List.nil_append]

theorem append_empty (steps : Steps) : steps.append empty = steps := by
  refine ext_events fun step => ?_
  rw [events_append, events_empty, List.append_nil]

/-- Streams are wired consistently, for every value and any number of edits in any order.

A walk meets every step once. Whichever way a stream is reached, it is the one that the edits about
its step made of what it was; a change of one step, whatever it does to the stream, leaves the others
alone. Appending is associative and the empty value neutral, and a value is empty exactly if every
step is pending. What an object gives under the name of a step is read into the stream of that
step. -/
theorem shows_edited :
    ((Step.ordered.map Step.text).Nodup ∧ ∀ step, step ∈ Step.ordered) ∧
      (∀ (steps : Steps) (edits : List Edit),
        (edits.foldl edit steps).Shows (steps.edited edits)) ∧
      (∀ (steps : Steps) (step other : Step) (change : List Event → List Event), step ≠ other →
        (steps.modify step change).events other = steps.events other) ∧
      (∀ xs ys zs : Steps, (xs.append ys).append zs = xs.append (ys.append zs)) ∧
      (∀ steps : Steps, empty.append steps = steps ∧ steps.append empty = steps) ∧
      (∀ steps : Steps, steps.isEmpty ↔ ∀ cls ∈ steps.classes, cls.2 = .pending) ∧
      ∀ d fields steps, decoder (d + 1) (.object fields) = .ok steps → ∀ step,
        (∀ t, (some step.text, t) ∈ fields →
            Decoder.list Event.decoder d t = .ok (steps.events step)) ∧
          ((∀ t, (some step.text, t) ∉ fields) → steps.events step = []) := by
  refine ⟨⟨nodup_texts, mem_ordered⟩, ?_, ?_, append_assoc,
    fun steps => ⟨empty_append steps, append_empty steps⟩, isEmpty_iff, ?_⟩
  · intro steps edits
    have streams : (edits.foldl edit steps).events = steps.edited edits :=
      funext (events_edits steps edits)
    rw [← streams]
    exact shows_events _
  · intro steps step other change different
    rw [events_modify, if_neg different]
  · intro d fields steps read step
    exact events_of_read read step

/-- A page brings a failure of one step and events of another, which are cleared again. -/
theorem shows_edited_page :
    let page := { empty with compute := [.ofTag .failed], network := [.ofTag .debug] }
    let edits := [.push .compute (.ofTag .started), .append page, .clear .network]
    let steps := edits.foldl edit { empty with storage := [.ofTag .completed] }
    Step.network ≠ .compute ∧
      (page.modify .network fun _ => []).events .compute = page.events .compute ∧
      steps.classes = [(.bootstrap, .pending), (.storage, .completed), (.network, .pending),
        (.compute, .failed), (.deployment, .pending), (.monitoring, .pending),
        (.unknown, .pending)] ∧
      steps.toJson.member? "compute" =
        some (.array [(Event.ofTag .started).toJson, (Event.ofTag .failed).toJson]) := by
  intro page edits steps
  obtain ⟨-, shows, others, -⟩ := shows_edited
  have shown := shows { empty with storage := [.ofTag .completed] } edits
  have different : Step.network ≠ .compute := by decide
  exact ⟨different, others page .network .compute _ different, shown.classified,
    shown.named .compute⟩

end Steps

end FleetControl
