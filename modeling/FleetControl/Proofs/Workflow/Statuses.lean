import FleetControl.Workflow.Resource
import Mathlib.Data.List.TakeWhile

/-!
# What the status of a resource says about its events

1. `StepStatus.classify_congr`: the class of a stream depends only on which tags occur in it.
   `classify_eq_failed`, `classify_eq_completed` and `classify_eq_pending` say which streams have
   these classes.
2. `ResourceStatus.ofClasses_eq_failed` and the lemmas beside it read a status off classes;
   `Steps.HasFailed`, `Steps.HasCompleted` and `Steps.HasNothing` say the same of the events.
3. `Resource.status_spec` is the whole: a status that the API gives wins, else the events decide.
-/

namespace FleetControl

namespace StepStatus

/-! ## One stream -/

variable {events xs ys : List Event}

theorem has_iff {tag : EventTag} : has tag events ↔ ∃ event ∈ events, event.tag = tag := by
  simp [has]

theorem classify_congr
    (same : ∀ tag, (∃ event ∈ xs, event.tag = tag) ↔ ∃ event ∈ ys, event.tag = tag) :
    classify xs = classify ys := by
  have tags : ∀ tag, has tag xs = has tag ys := fun tag => by
    rw [Bool.eq_iff_iff, has_iff, has_iff, same]
  have empty : xs = [] ↔ ys = [] := by
    -- an event in one stream has a tag, and so the other stream has an event too
    rw [List.eq_nil_iff_forall_not_mem, List.eq_nil_iff_forall_not_mem]
    constructor
    · intro none event he
      obtain ⟨other, ho, -⟩ := (same event.tag).mpr ⟨event, he, rfl⟩
      exact none other ho
    · intro none event he
      obtain ⟨other, ho, -⟩ := (same event.tag).mp ⟨event, he, rfl⟩
      exact none other ho
  unfold classify
  simp only [tags, List.isEmpty_iff, empty]

theorem classify_eq_pending : classify events = .pending ↔ events = [] := by
  rw [← List.isEmpty_iff]
  grind [classify]

theorem classify_eq_failed : classify events = .failed ↔ ∃ event ∈ events, event.tag = .failed := by
  rw [← has_iff]
  cases events with
  | nil => simp [classify, has]
  | cons event rest => grind [classify]

theorem classify_eq_completed :
    classify events = .completed ↔
      (¬ ∃ event ∈ events, event.tag = .failed) ∧ ∃ event ∈ events, event.tag = .completed := by
  rw [← has_iff, ← has_iff]
  cases events with
  | nil => simp [classify, has]
  | cons event rest => grind [classify]

end StepStatus

/-! ## All steps -/

namespace ResourceStatus

variable {classes : List (Step × StepStatus)}

/-- A status is inferred from which classes there are. -/
theorem ofClasses_eq (classes : List (Step × StepStatus)) :
    ofClasses classes =
      if ∃ cls ∈ classes, cls.2 = .failed then .failed
      else if ∀ cls ∈ classes, cls.2 = .pending then .pending
      else if ∀ cls ∈ classes, cls.2 = .pending ∨ cls.2 = .completed then .completed
      else .running := by
  unfold ofClasses
  simp only [List.any_eq_true, beq_iff_eq, List.isEmpty_iff, List.filter_eq_nil_iff,
    List.all_filter, List.all_eq_true, StepStatus.hasEvents, bne_iff_ne, ne_eq, Decidable.not_not,
    Bool.or_eq_true, Bool.not_eq_true', bne_eq_false_iff_eq]

theorem ofClasses_eq_failed :
    ofClasses classes = .failed ↔ ∃ cls ∈ classes, cls.2 = .failed := by
  rw [ofClasses_eq]
  split
  · next failed => simp only [failed]
  · next spared =>
    refine iff_of_false ?_ spared
    split
    · exact nofun
    · split <;> exact nofun

theorem ofClasses_eq_pending :
    ofClasses classes = .pending ↔ ∀ cls ∈ classes, cls.2 = .pending := by
  rw [ofClasses_eq]
  split
  · next failed =>
    obtain ⟨cls, hc, failed⟩ := failed
    exact iff_of_false nofun fun pending => absurd ((pending cls hc).symm.trans failed) nofun
  · split
    · next pending => simp only [true_iff]; exact pending
    · next begun =>
      refine iff_of_false ?_ begun
      split <;> exact nofun

theorem ofClasses_eq_completed :
    ofClasses classes = .completed ↔
      (¬ ∃ cls ∈ classes, cls.2 = .failed) ∧ (∃ cls ∈ classes, cls.2 ≠ .pending) ∧
        ∀ cls ∈ classes, cls.2 ≠ .pending → cls.2 = .completed := by
  rw [ofClasses_eq]
  split
  · next failed => exact iff_of_false nofun fun h => h.1 failed
  · next spared =>
    split
    · next pending =>
      exact iff_of_false nofun fun ⟨_, ⟨cls, hc, begun⟩, _⟩ => begun (pending cls hc)
    · next begun =>
      have some_begun : ∃ cls ∈ classes, cls.2 ≠ .pending := by simpa using begun
      split
      · next done =>
        exact iff_of_true rfl ⟨spared, some_begun, fun cls hc h => (done cls hc).resolve_left h⟩
      · next h =>
        refine iff_of_false nofun fun ⟨_, _, done⟩ => h fun cls hc => ?_
        exact Decidable.or_iff_not_imp_left.mpr (done cls hc)

end ResourceStatus

namespace Steps

variable {steps other : Steps}

/-- Some event of some step failed. -/
def HasFailed (steps : Steps) : Prop :=
  ∃ step, ∃ event ∈ steps.events step, event.tag = .failed

/-- No event failed, some step has events, and every step that has events has one that completed. -/
def HasCompleted (steps : Steps) : Prop :=
  ¬ steps.HasFailed ∧ (∃ step, steps.events step ≠ []) ∧
    ∀ step, steps.events step ≠ [] → ∃ event ∈ steps.events step, event.tag = .completed

/-- No step has any event. -/
def HasNothing (steps : Steps) : Prop :=
  ∀ step, steps.events step = []

theorem mem_ordered (step : Step) : step ∈ Step.ordered := by
  cases step <;> decide

theorem exists_mem_classes {p : StepStatus → Prop} :
    (∃ cls ∈ steps.classes, p cls.2) ↔ ∃ step, p (StepStatus.classify (steps.events step)) := by
  unfold classes
  rw [toList_eq]
  simp [mem_ordered]

theorem forall_mem_classes {p : StepStatus → Prop} :
    (∀ cls ∈ steps.classes, p cls.2) ↔ ∀ step, p (StepStatus.classify (steps.events step)) := by
  unfold classes
  rw [toList_eq]
  simp [mem_ordered]

theorem classes_congr
    (same : ∀ step tag, (∃ event ∈ steps.events step, event.tag = tag) ↔
      ∃ event ∈ other.events step, event.tag = tag) : steps.classes = other.classes := by
  unfold classes
  rw [toList_eq, toList_eq, List.map_map, List.map_map]
  exact List.map_congr_left fun step _ =>
    congrArg (Prod.mk step) (StepStatus.classify_congr (same step))

theorem ofClasses_failed_iff :
    ResourceStatus.ofClasses steps.classes = .failed ↔ steps.HasFailed := by
  rw [ResourceStatus.ofClasses_eq_failed, exists_mem_classes (p := (· = .failed))]
  simp only [StepStatus.classify_eq_failed, HasFailed]

theorem ofClasses_pending_iff :
    ResourceStatus.ofClasses steps.classes = .pending ↔ steps.HasNothing := by
  rw [ResourceStatus.ofClasses_eq_pending, forall_mem_classes (p := (· = .pending))]
  simp only [StepStatus.classify_eq_pending, HasNothing]

theorem ofClasses_completed_iff :
    ResourceStatus.ofClasses steps.classes = .completed ↔ steps.HasCompleted := by
  rw [ResourceStatus.ofClasses_eq_completed, ← ResourceStatus.ofClasses_eq_failed,
    ofClasses_failed_iff, exists_mem_classes (p := (· ≠ .pending)),
    forall_mem_classes (p := fun cls => cls ≠ .pending → cls = .completed)]
  simp only [Ne, StepStatus.classify_eq_pending, StepStatus.classify_eq_completed, HasCompleted]
  -- where nothing failed at all, a completed step needs no look at its failures
  refine and_congr_right fun spared => and_congr_right fun _ => forall_congr' fun step => ?_
  refine imp_congr_right fun _ => and_iff_right fun failed => spared ⟨step, failed⟩

end Steps

/-! ## A status that is given -/

namespace ResourceStatus

theorem words_apart :
    (∀ word ∈ failedWords, word ∉ completedWords) ∧
      ∀ word ∈ pendingWords, word ∉ completedWords ∧ word ∉ failedWords := by
  decide

theorem ofExplicit_eq_completed {raw : String} :
    ofExplicit raw = .completed ↔ Text.lower (Text.trim raw) ∈ completedWords := by
  unfold ofExplicit
  grind

theorem ofExplicit_eq_failed {raw : String} :
    ofExplicit raw = .failed ↔ Text.lower (Text.trim raw) ∈ failedWords := by
  have apart := words_apart.1 (Text.lower (Text.trim raw))
  unfold ofExplicit
  grind

theorem ofExplicit_eq_pending {raw : String} :
    ofExplicit raw = .pending ↔ Text.lower (Text.trim raw) ∈ pendingWords := by
  have apart := words_apart.2 (Text.lower (Text.trim raw))
  unfold ofExplicit
  grind

theorem eq_running_iff {status : ResourceStatus} :
    status = .running ↔ status ≠ .completed ∧ status ≠ .failed ∧ status ≠ .pending := by
  cases status <;> simp

end ResourceStatus

/-! ## A resource -/

namespace Text

/-- A text is blank if nothing is left of it without the blanks around it. -/
theorem isBlankText_iff {s : String} : isBlankText s ↔ trim s = "" := by
  have kept : strip isBlank s.toList = [] ↔ s.toList.all isBlank := by
    unfold strip dropEnd dropStart
    rw [List.reverse_eq_nil_iff, List.dropWhile_eq_nil_iff, List.all_eq_true]
    simp only [List.mem_reverse]
    constructor
    · intro all
      -- what is left begins with no blank
      have none_left : s.toList.dropWhile isBlank = [] := by
        cases left : s.toList.dropWhile isBlank with
        | nil => rfl
        | cons c rest =>
          have first := List.head?_dropWhile_not isBlank s.toList
          rw [left] at first all
          exact absurd ((all c List.mem_cons_self).symm.trans first) nofun
      exact List.dropWhile_eq_nil_iff.mp none_left
    · intro all c hc
      exact all c ((List.dropWhile_suffix isBlank).subset hc)
  unfold isBlankText trim
  rw [← kept, String.ofList_eq_empty_iff]

end Text

namespace Resource

theorem status_of_blank {r : Resource} (blank : r.explicit? = none) :
    r.status = ResourceStatus.ofClasses r.steps.classes := by
  unfold status
  rw [blank]

/-- The status that the API gives, without the blanks around it; empty if it gives none. -/
def word (r : Resource) : String :=
  Text.trim (r.explicit.getD "")

theorem explicit?_eq_none_iff {r : Resource} : r.explicit? = none ↔ r.word = "" := by
  unfold explicit? word
  cases r.explicit with
  | none => exact iff_of_true rfl (by decide)
  | some text =>
    rw [Option.getD_some, ← Text.isBlankText_iff, Option.filter_eq_none_iff]
    simp

theorem status_of_word {r : Resource} (given : r.word ≠ "") :
    ∃ text, r.status = ResourceStatus.ofExplicit text ∧ Text.trim text = r.word := by
  cases he : r.explicit? with
  | none => exact absurd (explicit?_eq_none_iff.mp he) given
  | some text =>
    have whole : r.explicit = some text := (Option.filter_eq_some_iff.mp he).1
    refine ⟨text, ?_, ?_⟩
    · unfold status
      rw [he]
    · rw [word, whole, Option.getD_some]

theorem status_congr {r other : Resource} (given : r.word ≠ "")
    (same : Text.lower other.word = Text.lower r.word) : other.status = r.status := by
  have present : other.word ≠ "" := by
    intro blank
    rw [blank] at same
    have length := congrArg (·.toList.length) same
    simp only [Text.lower, String.toList_ofList, List.length_map] at length
    exact given (String.toList_eq_nil_iff.mp (List.length_eq_zero_iff.mp length.symm))
  obtain ⟨text, own, trimmed⟩ := status_of_word given
  obtain ⟨text', own', trimmed'⟩ := status_of_word present
  rw [own, own']
  unfold ResourceStatus.ofExplicit
  rw [trimmed, trimmed', same]

/-- The status of a resource, for every resource. One that the API gives counts unless it is blank,
by its word in any letter case and whatever the events are. Else the events decide: which of them
occur in which step, and not where they stand. -/
theorem status_spec (r : Resource) :
    (if r.word = "" then
      (r.status = .failed ↔ r.steps.HasFailed) ∧
        (r.status = .completed ↔ r.steps.HasCompleted) ∧
        (r.status = .pending ↔ r.steps.HasNothing) ∧
        (r.status = .running ↔
          ¬ r.steps.HasCompleted ∧ ¬ r.steps.HasFailed ∧ ¬ r.steps.HasNothing)
    else
      let word := Text.lower r.word
      (r.status = .completed ↔
          word ∈ ["success", "completed", "complete", "ready", "stopped"]) ∧
        (r.status = .failed ↔ word ∈ ["failed", "failure", "error", "cancelled", "canceled"]) ∧
        (r.status = .pending ↔ word ∈ ["pending", "not_started", "queued"]) ∧
        (r.status = .running ↔ word ∉
          ["success", "completed", "complete", "ready", "stopped", "failed", "failure", "error",
            "cancelled", "canceled", "pending", "not_started", "queued"]) ∧
        ∀ other : Resource, Text.lower other.word = word → other.status = r.status) ∧
      ∀ steps : Steps, (∀ step, (steps.events step).Perm (r.steps.events step)) →
        { r with steps }.status = r.status := by
  constructor
  · split
    · next blank =>
      rw [status_of_blank (explicit?_eq_none_iff.mpr blank), ResourceStatus.eq_running_iff, Ne, Ne,
        Ne, Steps.ofClasses_failed_iff, Steps.ofClasses_completed_iff, Steps.ofClasses_pending_iff]
      exact ⟨Iff.rfl, Iff.rfl, Iff.rfl, Iff.rfl⟩
    · next given =>
      obtain ⟨text, own, trimmed⟩ := status_of_word given
      rw [ResourceStatus.eq_running_iff, Ne, Ne, Ne, own, ResourceStatus.ofExplicit_eq_completed,
        ResourceStatus.ofExplicit_eq_failed, ResourceStatus.ofExplicit_eq_pending, trimmed]
      refine ⟨Iff.rfl, Iff.rfl, Iff.rfl, ?_, fun other same => own ▸ status_congr given same⟩
      -- the last list is the other three in a row
      rw [← not_or, ← not_or, ← List.mem_append, ← List.mem_append]
      exact Iff.rfl
  · intro steps perm
    have classes : steps.classes = r.steps.classes :=
      Steps.classes_congr fun step tag => by simp only [(perm step).mem_iff]
    unfold status
    rw [classes]
    rfl

/-- A failure counts wherever it stands, and a blank status says nothing. -/
example : status ⟨"i-1", "db", { Steps.empty with compute := [.ofTag .failed, .ofTag .completed] },
    some " "⟩ = .failed := by decide

end Resource

end FleetControl
