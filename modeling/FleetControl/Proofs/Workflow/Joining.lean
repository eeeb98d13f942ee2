import FleetControl.Proofs.Workflow.Statuses
import Mathlib.Order.MinMax

/-!
# The class of a stream is a join

1. `StepStatus.rank` orders the classes: failed, completed, debug, started, unknown and pending, the
   highest first.
2. `StepStatus.classify_le_iff`: the class of a stream, found by one search after the other, is the
   least upper bound of the classes of its events.
3. So a stream with more events has no lower class (`classify_mono`), and two streams in a row have
   the higher of their classes (`classify_append`). `classify_join` is the whole, with pages.
-/

namespace FleetControl

namespace StepStatus

/-! ## The order of the classes -/

/-- The place of a class in the order. -/
def rank : StepStatus → Nat
  | .pending => 0
  | .unknown => 1
  | .started => 2
  | .debug => 3
  | .completed => 4
  | .failed => 5

theorem rank_injective : Function.Injective rank := by
  intro a b same
  cases a <;> cases b <;> first | rfl | cases same

instance : LinearOrder StepStatus := LinearOrder.lift' rank rank_injective

theorem pending_le (status : StepStatus) : .pending ≤ status := Nat.zero_le _

/-! ## One stream -/

variable {events xs ys : List Event}

/-- The class that an event with a tag has by itself. -/
def ofTag : EventTag → StepStatus
  | .started => .started
  | .debug => .debug
  | .completed => .completed
  | .failed => .failed
  | .other _ => .unknown

theorem exists_ofTag_eq (some_event : events ≠ []) :
    ∃ event ∈ events, ofTag event.tag = classify events := by
  have found (tag : EventTag) (h : has tag events = true) :
      ∃ event ∈ events, ofTag event.tag = ofTag tag := by
    obtain ⟨event, he, rfl⟩ := has_iff.mp h
    exact ⟨event, he, rfl⟩
  unfold classify
  rw [if_neg (by simpa using some_event)]
  -- the searches in the order of the code; whichever succeeds has found the event
  split
  · next failed => exact found .failed failed
  split
  · next completed => exact found .completed completed
  split
  · next debug => exact found .debug debug
  split
  · next started => exact found .started started
  · next failed completed debug started =>
    -- no tag that is searched for occurs, so the first event has another one
    cases events with
    | nil => exact absurd rfl some_event
    | cons event rest =>
      refine ⟨event, List.mem_cons_self, ?_⟩
      have absent (tag : EventTag) (h : ¬ has tag (event :: rest) = true) : event.tag ≠ tag :=
        fun same => h (has_iff.mpr ⟨event, List.mem_cons_self, same⟩)
      cases ht : event.tag with
      | failed => exact absurd ht (absent _ failed)
      | completed => exact absurd ht (absent _ completed)
      | debug => exact absurd ht (absent _ debug)
      | started => exact absurd ht (absent _ started)
      | other tag => rfl

theorem unknown_le_classify (some_event : events ≠ []) : .unknown ≤ classify events := by
  unfold classify
  rw [if_neg (by simpa using some_event)]
  repeat' split
  all_goals decide

theorem ofTag_le_classify {event : Event} (he : event ∈ events) :
    ofTag event.tag ≤ classify events := by
  have some_event : events ≠ [] := List.ne_nil_of_mem he
  have here : has event.tag events = true := has_iff.mpr ⟨event, he, rfl⟩
  cases ht : event.tag with
  | other tag => exact unknown_le_classify some_event
  | _ =>
    rw [ht] at here
    unfold classify
    rw [if_neg (by simpa using some_event)]
    -- the search for the tag of the event succeeds, and those before it give higher classes
    repeat' split
    all_goals decide

/-- The class of a stream is the least that no event exceeds. -/
theorem classify_le_iff {status : StepStatus} :
    classify events ≤ status ↔ ∀ event ∈ events, ofTag event.tag ≤ status := by
  constructor
  · intro bound event he
    exact le_trans (ofTag_le_classify he) bound
  · intro bound
    by_cases none : events = []
    · rw [classify_eq_pending.mpr none]
      exact pending_le status
    · obtain ⟨event, he, attained⟩ := exists_ofTag_eq none
      rw [← attained]
      exact bound event he

/-- A stream with more events has no lower class, wherever they stand. -/
theorem classify_mono (sub : xs ⊆ ys) : classify xs ≤ classify ys :=
  classify_le_iff.mpr fun _ he => ofTag_le_classify (sub he)

theorem classify_append (xs ys : List Event) :
    classify (xs ++ ys) = max (classify xs) (classify ys) := by
  refine eq_of_forall_ge_iff fun status => ?_
  rw [max_le_iff, classify_le_iff, classify_le_iff, classify_le_iff]
  exact List.forall_mem_append

end StepStatus

/-! ## Pages of events -/

namespace Steps

theorem subset_events_pages (steps : Steps) (pages : List Steps) (step : Step) :
    steps.events step ⊆ (pages.foldl append steps).events step := by
  induction pages generalizing steps with
  | nil => exact List.Subset.refl _
  | cons page pages ih =>
    rw [List.foldl_cons]
    refine List.Subset.trans ?_ (ih (steps.append page))
    rw [events_append]
    exact List.subset_append_left _ _

end Steps

namespace StepStatus

/-- The class of a stream is a join, for all streams of events. Two streams in a row have the higher
of their classes; a stream keeps its class when its events are put in another order or repeated, and
never gets a lower one when events are added. So pages that are appended never lower the class of a
step, and once an event of it failed the step stays failed. -/
theorem classify_join :
    (.pending < StepStatus.unknown ∧ .unknown < started ∧ started < debug ∧ debug < completed ∧
        completed < failed) ∧
      (∀ xs ys : List Event, classify (xs ++ ys) = max (classify xs) (classify ys)) ∧
      (∀ xs ys : List Event, xs ⊆ ys → ys ⊆ xs → classify xs = classify ys) ∧
      (∀ xs ys : List Event, xs ⊆ ys → classify xs ≤ classify ys) ∧
      (∀ (steps page : Steps) (step : Step), classify ((steps.append page).events step) =
        max (classify (steps.events step)) (classify (page.events step))) ∧
      ∀ (steps : Steps) (pages : List Steps) (step : Step),
        classify (steps.events step) ≤ classify ((pages.foldl Steps.append steps).events step) ∧
          ((∃ event ∈ steps.events step, event.tag = .failed) →
            classify ((pages.foldl Steps.append steps).events step) = failed) := by
  refine ⟨by decide, classify_append, ?_, fun _ _ => classify_mono, ?_, ?_⟩
  · intro xs ys sub sup
    exact le_antisymm (classify_mono sub) (classify_mono sup)
  · intro steps page step
    rw [Steps.events_append, classify_append]
  · intro steps pages step
    have kept := Steps.subset_events_pages steps pages step
    refine ⟨classify_mono kept, ?_⟩
    rintro ⟨event, he, failed⟩
    exact classify_eq_failed.mpr ⟨event, kept he, failed⟩

/-- A failure on the first page outlasts a completion on the second. -/
theorem classify_join_pages :
    let first := { Steps.empty with compute := [.ofTag .started, .ofTag .failed] }
    let second := { Steps.empty with compute := [.ofTag .completed] }
    (∃ event ∈ first.events .compute, event.tag = .failed) ∧
      classify (([second].foldl Steps.append first).events .compute) = failed := by
  intro first second
  have failure : ∃ event ∈ first.events .compute, event.tag = .failed :=
    ⟨.ofTag .failed, List.mem_cons_of_mem _ List.mem_cons_self, rfl⟩
  obtain ⟨-, -, -, -, -, pages⟩ := classify_join
  exact ⟨failure, (pages first [second] .compute).2 failure⟩

end StepStatus

end FleetControl
