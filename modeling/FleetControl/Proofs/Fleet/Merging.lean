import FleetControl.Fleet.Page
import FleetControl.Proofs.Poll.Shown

/-!
# What merged pages hold

Merging pages groups their entries by key.

1. `Resource.Gathers` says what the one resource of a key is, read off the entries of that key: it
   has all their events and nothing else, and each other field by a rule of its own.
2. `key_merge` says that a merge moves no entry to another key, and `Gathers.merge` that one more
   entry is taken in as the rules want.
3. `addResources_gathers` is the invariant of the fold over entries. Pages are only cuts in that
   fold (`resources_ofPages`), so where they are cut does not matter.
-/

namespace FleetControl

def entriesOf (key : String) (entries : List Resource) : List Resource :=
  entries.filter fun r => r.key == key

def lastRecord? (pages : List Page) : Option WorkflowRecord :=
  pages.reverse.findSome? (·.workflow)

/-- A resource is what entries of one key say together. -/
structure Resource.Gathers (r : Resource) (entries : List Resource) : Prop where
  /-- Step by step, the events of all entries in order. -/
  events : ∀ step, r.steps.events step = entries.flatMap fun e => e.steps.events step
  /-- The id of the first entry. -/
  id : entries.head?.map (·.id) = some r.id
  /-- The first name that is not empty. -/
  name : r.name = ((entries.map (·.name)).find? fun name => !name.isEmpty).getD ""
  /-- The last status that is not blank, else that of the first entry. -/
  explicit : r.explicit =
    (entries.reverse.findSome? (·.explicit?)).or (entries.head?.bind (·.explicit))

theorem entriesOf_snoc (key : String) (entries : List Resource) (r : Resource) :
    entriesOf key (entries ++ [r]) =
      if r.key = key then entriesOf key entries ++ [r] else entriesOf key entries := by
  unfold entriesOf
  rw [List.filter_append]
  by_cases h : r.key = key
  · rw [if_pos h, List.filter_cons_of_pos (by simpa using h), List.filter_nil]
  · rw [if_neg h, List.filter_cons_of_neg (by simpa using h), List.filter_nil, List.append_nil]

theorem entriesOf_eq_nil {key : String} {entries : List Resource} (h : key ∉ firstKeys entries) :
    entriesOf key entries = [] := by
  apply List.filter_eq_nil_iff.mpr
  intro r hr hk
  exact h (mem_firstKeys.mpr ⟨r, hr, beq_iff_eq.mp hk⟩)

namespace Resource

/-! ## One more entry -/

theorem explicit_of_some {r : Resource} {word : String} (h : r.explicit? = some word) :
    r.explicit = some word :=
  (Option.filter_eq_some_iff.mp h).1

theorem key_eq_id {r : Resource} (h : r.id.isEmpty = false) : r.key = r.id := by
  unfold key
  rw [h]
  rfl

theorem key_eq_name {r : Resource} (h : r.id.isEmpty) : r.key = r.name := if_pos h

/-- Only a resource that has neither id nor name has the empty key. -/
theorem name_of_key_eq_empty {r : Resource} (h : r.key = "") : r.name = "" := by
  cases hi : r.id.isEmpty with
  | true => rwa [key_eq_name hi] at h
  | false =>
    rw [key_eq_id hi] at h
    rw [h] at hi
    cases hi

theorem name_merge (first later : Resource) :
    (first.merge later).name = if first.name.isEmpty then later.name else first.name := rfl

/-- An entry is merged into one of its own key, and the key stays: a name is only filled in where
the id is the key, or where both names are empty. -/
theorem key_merge {first later : Resource} (same : first.key = later.key) :
    (first.merge later).key = first.key := by
  cases hi : first.id.isEmpty with
  | false =>
    rw [key_eq_id hi]
    exact key_eq_id (r := first.merge later) hi
  | true =>
    have named : (first.merge later).key = (first.merge later).name := key_eq_name hi
    rw [named, key_eq_name hi, name_merge]
    by_cases hn : first.name.isEmpty
    · have empty : first.name = "" := String.isEmpty_iff.mp hn
      rw [key_eq_name hi, empty] at same
      rw [if_pos hn, empty]
      exact name_of_key_eq_empty same.symm
    · rw [if_neg hn]

theorem Gathers.single (r : Resource) : r.Gathers [r] := by
  refine ⟨fun step => (List.append_nil _).symm, rfl, ?_, ?_⟩
  · by_cases h : r.name.isEmpty
    · have empty : r.name = "" := String.isEmpty_iff.mp h
      simp [empty]
    · simp [h]
  · cases h : r.explicit? with
    | none => simp [h]
    | some word => simp [h, explicit_of_some h]

theorem Gathers.merge {r : Resource} {entries : List Resource} (h : r.Gathers entries)
    (later : Resource) : (r.merge later).Gathers (entries ++ [later]) := by
  obtain ⟨first, rest, rfl⟩ : ∃ first rest, entries = first :: rest := by
    cases entries with
    | nil => cases h.id
    | cons first rest => exact ⟨first, rest, rfl⟩
  refine ⟨fun step => ?_, h.id, ?_, ?_⟩
  · show (r.steps.append later.steps).events step = _
    rw [Steps.events_append, h.events step, List.flatMap_append, List.flatMap_singleton]
  · -- a name that was found stays, else the new one is the first
    rw [name_merge, h.name, List.map_append, List.find?_append]
    cases hf : ((first :: rest).map (·.name)).find? fun name => !name.isEmpty with
    | some name =>
      have nonempty : ¬ name.isEmpty := by simpa using List.find?_some hf
      simp [nonempty]
    | none =>
      by_cases hl : later.name.isEmpty
      · have empty : later.name = "" := String.isEmpty_iff.mp hl
        simp [empty]
      · simp [hl]
  · -- a status that is not blank is the last one, else what was there before stays
    show (if later.explicit?.isSome then later.explicit else r.explicit) = _
    rw [List.reverse_append, List.reverse_singleton, List.singleton_append, List.findSome?_cons]
    cases hl : later.explicit? with
    | some word => simp [explicit_of_some hl]
    | none =>
      rw [if_neg (by simp), h.explicit]
      rfl

end Resource

namespace Fetch

/-! ## The fold over entries -/

theorem keys_addResource (merged : List Resource) (later : Resource) :
    (addResource merged later).map (·.key) =
      if later.key ∈ merged.map (·.key) then merged.map (·.key)
      else merged.map (·.key) ++ [later.key] := by
  induction merged with
  | nil => rfl
  | cons first rest ih =>
    unfold addResource
    by_cases same : first.key = later.key
    · rw [if_pos same, if_pos (by simp [same])]
      rw [List.map_cons, List.map_cons, Resource.key_merge same]
    · have other : later.key ∈ first.key :: rest.map (·.key) ↔ later.key ∈ rest.map (·.key) := by
        rw [List.mem_cons, or_iff_right (Ne.symm same)]
      rw [if_neg same, List.map_cons, List.map_cons, ih]
      by_cases known : later.key ∈ rest.map (·.key)
      · rw [if_pos known, if_pos (other.mpr known)]
      · rw [if_neg known, if_neg (mt other.mp known), List.cons_append]

/-- The resources after a merge: those of other keys, and the one of the key that was merged. -/
theorem mem_addResource {merged : List Resource} {later r : Resource}
    (distinct : (merged.map (·.key)).Nodup) (h : r ∈ addResource merged later) :
    (r ∈ merged ∧ r.key ≠ later.key) ∨
      (∃ first ∈ merged, first.key = later.key ∧ r = first.merge later) ∨
      (r = later ∧ later.key ∉ merged.map (·.key)) := by
  induction merged with
  | nil =>
    rw [List.mem_singleton.mp h]
    exact .inr (.inr ⟨rfl, List.not_mem_nil⟩)
  | cons first rest ih =>
    rw [List.map_cons, List.nodup_cons] at distinct
    unfold addResource at h
    by_cases same : first.key = later.key
    · rw [if_pos same] at h
      rcases List.mem_cons.mp h with rfl | h
      · exact .inr (.inl ⟨first, List.mem_cons_self, same, rfl⟩)
      · refine .inl ⟨List.mem_cons_of_mem _ h, fun he => distinct.1 ?_⟩
        exact List.mem_map.mpr ⟨r, h, he.trans same.symm⟩
    · rw [if_neg same] at h
      rcases List.mem_cons.mp h with rfl | h
      · exact .inl ⟨List.mem_cons_self, same⟩
      · rcases ih distinct.2 h with ⟨hr, hk⟩ | ⟨other, ho, hk, rfl⟩ | ⟨rfl, hk⟩
        · exact .inl ⟨List.mem_cons_of_mem _ hr, hk⟩
        · exact .inr (.inl ⟨other, List.mem_cons_of_mem _ ho, hk, rfl⟩)
        · refine .inr (.inr ⟨rfl, ?_⟩)
          rw [List.map_cons, List.mem_cons, not_or]
          exact ⟨Ne.symm same, hk⟩

/-- What merging entries one by one gives: their keys in the order of first occurrence, and under
each key what its entries say together. -/
theorem addResources_gathers (entries : List Resource) :
    (entries.foldl addResource []).map (·.key) = firstKeys entries ∧
      ∀ r ∈ entries.foldl addResource [], r.Gathers (entriesOf r.key entries) := by
  induction entries using List.reverseRecOn with
  | nil => exact ⟨rfl, fun r hr => absurd hr List.not_mem_nil⟩
  | append_singleton entries later ih =>
    obtain ⟨keys, gathers⟩ := ih
    have distinct : ((entries.foldl addResource []).map (·.key)).Nodup :=
      keys ▸ nodup_firstKeys entries
    rw [List.foldl_append, List.foldl_cons, List.foldl_nil]
    refine ⟨?_, fun r hr => ?_⟩
    · rw [keys_addResource, firstKeys_snoc, keys]
    · rw [entriesOf_snoc]
      rcases mem_addResource distinct hr with ⟨hr, hk⟩ | ⟨first, hf, same, rfl⟩ | ⟨rfl, hk⟩
      · rw [if_neg (Ne.symm hk)]
        exact gathers r hr
      · rw [Resource.key_merge same, if_pos same.symm]
        exact (gathers first hf).merge later
      · rw [if_pos rfl, entriesOf_eq_nil (keys ▸ hk), List.nil_append]
        exact .single r

/-! ## Pages -/

/-- Pages are cuts in the list of their entries. -/
theorem resources_ofPages (pages : List Page) :
    (ofPages pages).resources = (pages.flatMap (·.resources)).foldl addResource [] := by
  induction pages using List.reverseRecOn with
  | nil => rfl
  | append_singleton pages page ih =>
    rw [List.flatMap_append, List.flatMap_singleton, List.foldl_append, ← ih, ofPages_snoc]
    rfl

theorem workflow_ofPages (pages : List Page) : (ofPages pages).workflow = lastRecord? pages := by
  induction pages using List.reverseRecOn with
  | nil => rfl
  | append_singleton pages page ih =>
    have step : (ofPages (pages ++ [page])).workflow =
        (page.workflow <|> (ofPages pages).workflow) := by
      rw [ofPages_snoc]
      rfl
    rw [step, ih]
    unfold lastRecord?
    rw [List.reverse_append, List.reverse_singleton, List.singleton_append, List.findSome?_cons]
    cases page.workflow <;> rfl

/-- What pages say together, for every list of pages. Their keys are distinct and in the order of
first occurrence over all entries; under each key stands what its entries say together, and the
record is the last one. So only the entries in a row and the last record count, not the pages. -/
theorem ofPages_gathers (pages : List Page) :
    let entries := pages.flatMap (·.resources)
    let merged := ofPages pages
    (merged.resources.map (·.key) = firstKeys entries ∧ (firstKeys entries).Nodup) ∧
      (∀ r ∈ merged.resources, r.Gathers (entriesOf r.key entries)) ∧
      merged.workflow = lastRecord? pages ∧
      ∀ others : List Page, others.flatMap (·.resources) = entries →
        lastRecord? others = lastRecord? pages → ofPages others = merged := by
  intro entries merged
  have fold : merged.resources = entries.foldl addResource [] := resources_ofPages pages
  obtain ⟨keys, gathers⟩ := addResources_gathers entries
  refine ⟨⟨fold ▸ keys, nodup_firstKeys entries⟩, fold ▸ gathers, workflow_ofPages pages, ?_⟩
  intro others same record
  have resources : (ofPages others).resources = merged.resources := by
    rw [resources_ofPages, same, fold]
  have workflow : (ofPages others).workflow = merged.workflow := by
    rw [workflow_ofPages, record, workflow_ofPages]
  show (⟨(ofPages others).resources, (ofPages others).workflow⟩ : Fetch) = merged
  rw [resources, workflow]

end Fetch

end FleetControl
