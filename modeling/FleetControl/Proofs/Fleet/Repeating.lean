import FleetControl.Proofs.Fleet.Merging
import FleetControl.Proofs.Workflow.Statuses

/-!
# Pages that come again

A server may send its pages in any order and any of them again. What resources say does not depend
on it.

1. `Resource.Gathers.classes_eq` and `Resource.Gathers.status_eq`: of the entries of a key only the
   set counts.
2. `mem_firstKeys_congr` says the same of the keys, and `Fetch.ofPages_repeated` of two lists of
   pages as a whole.
-/

namespace FleetControl

theorem mem_entriesOf {key : String} {entries : List Resource} {r : Resource} :
    r ∈ entriesOf key entries ↔ r ∈ entries ∧ r.key = key := by
  simp [entriesOf]

namespace Resource.Gathers

variable {r s : Resource} {entries others : List Resource}

theorem exists_tag (h : r.Gathers entries) (step : Step) (tag : EventTag) :
    (∃ event ∈ r.steps.events step, event.tag = tag) ↔
      ∃ entry ∈ entries, ∃ event ∈ entry.steps.events step, event.tag = tag := by
  rw [h.events step]
  simp only [List.mem_flatMap]
  constructor
  · rintro ⟨event, ⟨entry, he, hm⟩, named⟩
    exact ⟨entry, he, event, hm, named⟩
  · rintro ⟨entry, he, event, hm, named⟩
    exact ⟨event, ⟨entry, he, hm⟩, named⟩

theorem classes_eq (h : r.Gathers entries) (h' : s.Gathers others)
    (same : ∀ entry, entry ∈ entries ↔ entry ∈ others) : r.steps.classes = s.steps.classes := by
  refine Steps.classes_congr fun step tag => ?_
  rw [h.exists_tag, h'.exists_tag]
  simp only [same]

theorem explicit?_eq_none (h : r.Gathers entries)
    (blank : ∀ entry ∈ entries, entry.explicit? = none) :
    r.explicit? = none := by
  have unsaid : entries.reverse.findSome? (·.explicit?) = none := by
    rw [List.findSome?_eq_none_iff]
    exact fun entry he => blank entry (List.mem_reverse.mp he)
  have first := h.explicit
  rw [unsaid, Option.none_or] at first
  cases entries with
  | nil => cases h.id
  | cons entry rest =>
    have own := blank entry List.mem_cons_self
    unfold explicit? at own ⊢
    rw [first]
    exact own

theorem status_eq (h : r.Gathers entries) (h' : s.Gathers others)
    (same : ∀ entry, entry ∈ entries ↔ entry ∈ others)
    (blank : ∀ entry ∈ entries, entry.explicit? = none) : r.status = s.status := by
  have blank' : ∀ entry ∈ others, entry.explicit? = none :=
    fun entry he => blank entry ((same entry).mpr he)
  rw [status_of_blank (h.explicit?_eq_none blank), status_of_blank (h'.explicit?_eq_none blank'),
    h.classes_eq h' same]

end Resource.Gathers

namespace Fetch

/-- The same entries, in any order and each any number of times, have the same keys. -/
theorem mem_firstKeys_congr {entries others : List Resource}
    (same : ∀ r, r ∈ entries ↔ r ∈ others) (key : String) :
    key ∈ firstKeys entries ↔ key ∈ firstKeys others := by
  simp only [mem_firstKeys, same]

/-- Pages say the same of every resource, in any order and each repeated any number of times, if no
entry has a status of its own. The merged keys are the same, under every key stand the same classes
of steps and the same status, and so the same resources have failed or completed. -/
theorem ofPages_repeated (pages others : List Page)
    (same : ∀ page, page ∈ pages ↔ page ∈ others)
    (blank : ∀ page ∈ pages, ∀ r ∈ page.resources, r.word = "") :
    let merged := ofPages pages
    let repeated := ofPages others
    (∀ key, key ∈ merged.resources.map (·.key) ↔ key ∈ repeated.resources.map (·.key)) ∧
      (∀ r ∈ merged.resources, ∀ s ∈ repeated.resources, r.key = s.key →
        r.steps.classes = s.steps.classes ∧ r.status = s.status) ∧
      ∀ key status, (∃ r ∈ merged.resources, r.key = key ∧ r.status = status) ↔
        ∃ s ∈ repeated.resources, s.key = key ∧ s.status = status := by
  intro merged repeated
  let entries := pages.flatMap (·.resources)
  let again := others.flatMap (·.resources)
  have members : ∀ r, r ∈ entries ↔ r ∈ again := by
    intro r
    simp only [entries, again, List.mem_flatMap, same]
  have unsaid : ∀ r ∈ entries, r.explicit? = none := by
    intro r hr
    obtain ⟨page, hp, hr⟩ := List.mem_flatMap.mp hr
    exact Resource.explicit?_eq_none_iff.mpr (blank page hp r hr)
  obtain ⟨keys, gathers⟩ := addResources_gathers entries
  obtain ⟨keys', gathers'⟩ := addResources_gathers again
  rw [← resources_ofPages] at keys gathers keys' gathers'
  have known : ∀ key, key ∈ merged.resources.map (·.key) ↔
      key ∈ repeated.resources.map (·.key) := by
    intro key
    rw [keys, keys', mem_firstKeys_congr members]
  have alike : ∀ r ∈ merged.resources, ∀ s ∈ repeated.resources, r.key = s.key →
      r.steps.classes = s.steps.classes ∧ r.status = s.status := by
    intro r hr s hs hk
    have own : ∀ entry, entry ∈ entriesOf r.key entries ↔ entry ∈ entriesOf s.key again := by
      intro entry
      rw [mem_entriesOf, mem_entriesOf, members, hk]
    refine ⟨(gathers r hr).classes_eq (gathers' s hs) own,
      (gathers r hr).status_eq (gathers' s hs) own fun entry he => ?_⟩
    exact unsaid entry (mem_entriesOf.mp he).1
  refine ⟨known, alike, fun key status => ⟨?_, ?_⟩⟩
  · rintro ⟨r, hr, rfl, rfl⟩
    obtain ⟨s, hs, hk⟩ := List.mem_map.mp ((known r.key).mp (List.mem_map_of_mem hr))
    exact ⟨s, hs, hk, (alike r hr s hs hk.symm).2.symm⟩
  · rintro ⟨s, hs, rfl, rfl⟩
    obtain ⟨r, hr, hk⟩ := List.mem_map.mp ((known s.key).mpr (List.mem_map_of_mem hs))
    exact ⟨r, hr, hk, (alike r hr s hs hk).2⟩

/-- A server that starts over after its second page. -/
theorem ofPages_repeated_cycle :
    let started : Page := ⟨[⟨"i-1", "db", { Steps.empty with compute := [.ofTag .started] }, none⟩],
      some (.ofStatus "running"), some "next"⟩
    let failed : Page := ⟨[⟨"i-1", "", { Steps.empty with compute := [.ofTag .failed] }, some " "⟩,
      ⟨"i-2", "web", { Steps.empty with network := [.ofTag .completed] }, none⟩], none,
      some "first"⟩
    (∀ page, page ∈ [started, failed] ↔ page ∈ [failed, started, failed, started]) ∧
      (∀ page ∈ [started, failed], ∀ r ∈ page.resources, r.word = "") ∧
      ∀ key status,
        (∃ r ∈ (ofPages [started, failed]).resources, r.key = key ∧ r.status = status) ↔
          ∃ s ∈ (ofPages [failed, started, failed, started]).resources,
            s.key = key ∧ s.status = status := by
  intro started failed
  have same : ∀ page, page ∈ [started, failed] ↔ page ∈ [failed, started, failed, started] := by
    intro page
    simp only [List.mem_cons, List.not_mem_nil, or_false]
    tauto
  have blank : ∀ page ∈ [started, failed], ∀ r ∈ page.resources, r.word = "" := by
    simp only [started, failed, List.forall_mem_cons, List.not_mem_nil, false_implies, implies_true,
      and_true]
    decide
  exact ⟨same, blank, (ofPages_repeated _ _ same blank).2.2⟩

end Fetch

end FleetControl
