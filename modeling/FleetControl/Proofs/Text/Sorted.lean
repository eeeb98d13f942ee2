import FleetControl.Text.Dictionary
import Mathlib.Tactic.Common

/-!
# Sorted dictionaries

What is proved: inserting and erasing keep a dictionary sorted (`Sorted.insert`, `Sorted.erase`), a
sorted one has a pair exactly if looking up its key finds its value (`Sorted.mem_iff`), inserting the
pairs of a sorted dictionary one after the other gives that dictionary (`insertAll_last`), and what
was inserted is found again (`get?_insertAll`).
-/

namespace FleetControl.Dictionary

variable {α : Type}

/-- Whether the keys ascend, so that no two pairs have one key. -/
def Sorted (pairs : Dictionary α) : Prop :=
  pairs.Pairwise fun a b => a.1 < b.1

theorem mem_insert {pairs : Dictionary α} {key : String} {value : α} {kv : String × α}
    (h : kv ∈ pairs.insert key value) : kv = (key, value) ∨ kv ∈ pairs := by
  induction pairs with
  | nil => simpa [insert] using h
  | cons head rest ih =>
    obtain ⟨k, v⟩ := head
    simp only [insert] at h
    split at h
    · simpa using h
    · split at h
      · rcases List.mem_cons.mp h with rfl | h
        · exact .inl rfl
        · exact .inr (List.mem_cons_of_mem _ h)
      · rcases List.mem_cons.mp h with rfl | h
        · exact .inr List.mem_cons_self
        · exact (ih h).imp_right (List.mem_cons_of_mem _)

theorem mem_insertAll {pairs : Dictionary α} {more : List (String × α)} {kv : String × α}
    (h : kv ∈ pairs.insertAll more) : kv ∈ pairs ∨ kv ∈ more := by
  induction more generalizing pairs with
  | nil => exact .inl h
  | cons next more ih =>
    rcases ih h with h | h
    · exact (mem_insert h).elim (fun e => .inr (e ▸ List.mem_cons_self)) .inl
    · exact .inr (List.mem_cons_of_mem _ h)

theorem mem_erase {pairs : Dictionary α} {key : String} {kv : String × α}
    (h : kv ∈ pairs.erase key) : kv ∈ pairs := by
  induction pairs with
  | nil => exact h
  | cons head rest ih =>
    obtain ⟨k, v⟩ := head
    simp only [erase] at h
    split at h
    · exact List.mem_cons_of_mem _ (ih h)
    · rcases List.mem_cons.mp h with rfl | h
      · exact List.mem_cons_self
      · exact List.mem_cons_of_mem _ (ih h)

theorem insert_last {pairs : Dictionary α} {key : String} (value : α)
    (h : ∀ kv ∈ pairs, kv.1 < key) : pairs.insert key value = pairs ++ [(key, value)] := by
  induction pairs with
  | nil => rfl
  | cons head rest ih =>
    obtain ⟨k, v⟩ := head
    have less : k < key := h (k, v) List.mem_cons_self
    have notLess : ¬ key < k := String.lt_asymm less
    have other : k ≠ key := fun same => String.lt_irrefl key (same ▸ less)
    simp [insert, notLess, other, ih fun kv hk => h kv (List.mem_cons_of_mem _ hk)]

theorem get?_eq_none {pairs : Dictionary α} {key : String} (h : ∀ kv ∈ pairs, kv.1 ≠ key) :
    pairs.get? key = none := by
  induction pairs with
  | nil => rfl
  | cons head rest ih =>
    obtain ⟨k, v⟩ := head
    have other : k ≠ key := h (k, v) List.mem_cons_self
    simp [get?, other, ih fun kv hk => h kv (List.mem_cons_of_mem _ hk)]

theorem mem_of_get? {pairs : Dictionary α} {key : String} {value : α}
    (h : pairs.get? key = some value) : (key, value) ∈ pairs := by
  induction pairs with
  | nil => cases h
  | cons head rest ih =>
    obtain ⟨k, v⟩ := head
    simp only [get?] at h
    split at h
    · next same =>
      cases h
      rw [same]
      exact List.mem_cons_self
    · exact List.mem_cons_of_mem _ (ih h)

theorem insertAll_last {pairs more : Dictionary α} (sorted : more.Sorted)
    (h : ∀ a ∈ pairs, ∀ kv ∈ more, a.1 < kv.1) : pairs.insertAll more = pairs ++ more := by
  induction more generalizing pairs with
  | nil => simp [insertAll]
  | cons kv more ih =>
    obtain ⟨first, sorted⟩ := List.pairwise_cons.mp sorted
    have last : pairs.insert kv.1 kv.2 = pairs ++ [kv] :=
      insert_last kv.2 fun a ha => h a ha kv List.mem_cons_self
    have between : ∀ a ∈ pairs ++ [kv], ∀ next ∈ more, a.1 < next.1 := by
      intro a ha next hn
      rcases List.mem_append.mp ha with ha | ha
      · exact h a ha next (List.mem_cons_of_mem _ hn)
      · rw [List.mem_singleton.mp ha]
        exact first next hn
    show (pairs.insert kv.1 kv.2).insertAll more = _
    rw [last, ih sorted between]
    simp

theorem sorted_iff_keys {pairs : Dictionary α} :
    pairs.Sorted ↔ pairs.keys.Pairwise (· < ·) :=
  List.pairwise_map.symm

/-! ## Looking up what was inserted -/

theorem get?_eq_none_iff {pairs : Dictionary α} {key : String} :
    pairs.get? key = none ↔ key ∉ pairs.keys := by
  induction pairs with
  | nil => simp [get?, keys]
  | cons head rest ih =>
    obtain ⟨k, v⟩ := head
    have ih : get? rest key = none ↔ key ∉ List.map (·.1) rest := ih
    by_cases here : k = key
    · simp [get?, keys, here]
    · simp [get?, keys, here, ih, Ne.symm here]

theorem get?_of_mem {pairs : Dictionary α} (distinct : pairs.keys.Nodup) {kv : String × α}
    (member : kv ∈ pairs) : pairs.get? kv.1 = some kv.2 := by
  induction pairs with
  | nil => cases member
  | cons head rest ih =>
    obtain ⟨first, distinct⟩ := List.nodup_cons.mp distinct
    rcases List.mem_cons.mp member with rfl | member
    · simp [get?]
    · have other : head.1 ≠ kv.1 := fun same =>
        first (List.mem_map.mpr ⟨kv, member, same.symm⟩)
      simp [get?, other, ih distinct member]

theorem get?_insertAll {more : List (String × α)} (distinct : (keys more).Nodup)
    (pairs : Dictionary α) (key : String) :
    (pairs.insertAll more).get? key = (get? more key).or (pairs.get? key) := by
  induction more generalizing pairs with
  | nil => rfl
  | cons kv more ih =>
    obtain ⟨first, distinct⟩ := List.nodup_cons.mp distinct
    show ((pairs.insert kv.1 kv.2).insertAll more).get? key = _
    rw [ih distinct, get?_insert]
    by_cases here : kv.1 = key
    · have absent : get? more key = none := get?_eq_none_iff.mpr (here ▸ first)
      simp [get?, here, absent]
    · simp [get?, here]

theorem get?_append (pairs more : Dictionary α) (key : String) :
    get? (pairs ++ more) key = (pairs.get? key).or (more.get? key) := by
  induction pairs with
  | nil => rfl
  | cons head rest ih =>
    obtain ⟨k, v⟩ := head
    by_cases here : k = key <;> simp [get?, here, ih]

theorem get?_filter (p : String → Bool) (pairs : Dictionary α) (key : String) :
    get? (pairs.filter fun kv => p kv.1) key = if p key then pairs.get? key else none := by
  induction pairs with
  | nil => simp [get?]
  | cons head rest ih =>
    obtain ⟨k, v⟩ := head
    by_cases here : k = key
    · subst here
      by_cases chosen : p k = true <;> simp [get?, chosen, ih]
    · by_cases chosen : p k = true <;> simp [get?, chosen, here, ih]

section Changing

variable {β : Type}

theorem insertAll_append (pairs : Dictionary α) (more last : List (String × α)) :
    pairs.insertAll (more ++ last) = (pairs.insertAll more).insertAll last :=
  List.foldl_append

theorem map_insert (f : α → β) (pairs : Dictionary α) (key : String) (value : α) :
    (pairs.insert key value).map (fun kv => (kv.1, f kv.2)) =
      Dictionary.insert (pairs.map fun kv => (kv.1, f kv.2)) key (f value) := by
  induction pairs with
  | nil => rfl
  | cons head rest ih =>
    obtain ⟨k, v⟩ := head
    by_cases before : key < k
    · simp [insert, before]
    · by_cases here : k = key
      · simp [insert, here]
      · simp [insert, before, here, ih]

/-- Values may be changed before they are inserted, or all of them afterwards. -/
theorem map_insertAll (f : α → β) (pairs : Dictionary α) (more : List (String × α)) :
    (pairs.insertAll more).map (fun kv => (kv.1, f kv.2)) =
      insertAll (pairs.map fun kv => (kv.1, f kv.2)) (more.map fun kv => (kv.1, f kv.2)) := by
  induction more generalizing pairs with
  | nil => rfl
  | cons kv more ih =>
    show ((pairs.insert kv.1 kv.2).insertAll more).map _ = _
    rw [ih, map_insert]
    rfl

theorem get?_map (f : α → β) (pairs : Dictionary α) (key : String) :
    get? (pairs.map fun kv => (kv.1, f kv.2)) key = (pairs.get? key).map f := by
  induction pairs with
  | nil => rfl
  | cons head rest ih =>
    obtain ⟨k, v⟩ := head
    by_cases here : k = key <;> simp [get?, here, ih]

end Changing

/-! ## Reading every value -/

section Reading

variable {β : Type} {read : α → Option β} {pairs : Dictionary α} {out : Dictionary β}

theorem keys_mapM (h : pairs.mapM (fun kv => (read kv.2).map fun b => (kv.1, b)) = some out) :
    out.keys = pairs.keys := by
  induction pairs generalizing out with
  | nil =>
    cases h
    rfl
  | cons kv rest ih =>
    simp only [List.mapM_cons, bind, Option.bind_eq_some_iff, Option.map_eq_some_iff] at h
    obtain ⟨first, ⟨b, -, rfl⟩, others, same, rest⟩ := h
    cases rest
    have := ih same
    simp_all [keys]

theorem mem_mapM (h : pairs.mapM (fun kv => (read kv.2).map fun b => (kv.1, b)) = some out)
    {key : String} {b : β} : (key, b) ∈ out ↔ ∃ a, (key, a) ∈ pairs ∧ read a = some b := by
  induction pairs generalizing out with
  | nil =>
    cases h
    simp
  | cons kv rest ih =>
    simp only [List.mapM_cons, bind, Option.bind_eq_some_iff, Option.map_eq_some_iff] at h
    obtain ⟨first, ⟨c, found, rfl⟩, others, same, rest⟩ := h
    cases rest
    rw [List.mem_cons, ih same]
    constructor
    · rintro (e | ⟨a, member, reads⟩)
      · cases e
        exact ⟨kv.2, List.mem_cons_self, found⟩
      · exact ⟨a, List.mem_cons_of_mem _ member, reads⟩
    · rintro ⟨a, member, reads⟩
      rcases List.mem_cons.mp member with e | member
      · cases e
        rw [found] at reads
        cases reads
        exact .inl rfl
      · exact .inr ⟨a, member, reads⟩

theorem forall₂_mapM (h : pairs.mapM (fun kv => (read kv.2).map fun b => (kv.1, b)) = some out) :
    List.Forall₂ (fun kv kb => kb.1 = kv.1 ∧ read kv.2 = some kb.2) pairs out := by
  induction pairs generalizing out with
  | nil =>
    cases h
    exact .nil
  | cons kv rest ih =>
    simp only [List.mapM_cons, bind, Option.bind_eq_some_iff, Option.map_eq_some_iff] at h
    obtain ⟨first, ⟨b, found, rfl⟩, others, same, rest⟩ := h
    cases rest
    exact .cons ⟨rfl, found⟩ (ih same)

theorem isSome_mapM : (pairs.mapM fun kv => (read kv.2).map fun b => (kv.1, b)).isSome ↔
    ∀ kv ∈ pairs, (read kv.2).isSome := by
  induction pairs with
  | nil => simp
  | cons kv rest ih =>
    rw [List.forall_mem_cons, ← ih, List.mapM_cons]
    cases read kv.2 with
    | none => simp
    | some b => cases rest.mapM fun kv => (read kv.2).map fun b => (kv.1, b) <;> simp

end Reading

namespace Sorted

theorem nil : Sorted ([] : Dictionary α) :=
  List.Pairwise.nil

theorem insert {pairs : Dictionary α} (sorted : pairs.Sorted) (key : String) (value : α) :
    (pairs.insert key value).Sorted := by
  induction pairs with
  | nil => simp [Dictionary.insert, Sorted]
  | cons head rest ih =>
    obtain ⟨k, v⟩ := head
    obtain ⟨first, sorted⟩ := List.pairwise_cons.mp sorted
    simp only [Dictionary.insert]
    split
    · next less =>
      refine List.pairwise_cons.mpr ⟨?_, List.pairwise_cons.mpr ⟨first, sorted⟩⟩
      intro kv hk
      rcases List.mem_cons.mp hk with rfl | hk
      · exact less
      · exact String.lt_trans less (first kv hk)
    · next notLess =>
      split
      · next same =>
        subst same
        exact List.pairwise_cons.mpr ⟨first, sorted⟩
      · next other =>
        refine List.pairwise_cons.mpr ⟨?_, ih sorted⟩
        intro kv hk
        rcases mem_insert hk with rfl | hk
        · have above : k < key := by grind
          exact above
        · exact first kv hk

theorem erase {pairs : Dictionary α} (sorted : pairs.Sorted) (key : String) :
    (pairs.erase key).Sorted := by
  induction pairs with
  | nil => exact nil
  | cons head rest ih =>
    obtain ⟨k, v⟩ := head
    obtain ⟨first, sorted⟩ := List.pairwise_cons.mp sorted
    simp only [Dictionary.erase]
    split
    · exact ih sorted
    · exact List.pairwise_cons.mpr ⟨fun kv hk => first kv (mem_erase hk), ih sorted⟩

theorem insertAll {pairs : Dictionary α} (sorted : pairs.Sorted) (more : List (String × α)) :
    (pairs.insertAll more).Sorted := by
  induction more generalizing pairs with
  | nil => exact sorted
  | cons kv more ih => exact ih (sorted.insert kv.1 kv.2)

theorem mem_iff {pairs : Dictionary α} (sorted : pairs.Sorted) {key : String} {value : α} :
    (key, value) ∈ pairs ↔ pairs.get? key = some value := by
  refine ⟨fun member => ?_, mem_of_get?⟩
  induction pairs with
  | nil => cases member
  | cons head rest ih =>
    obtain ⟨k, v⟩ := head
    obtain ⟨first, sorted⟩ := List.pairwise_cons.mp sorted
    rcases List.mem_cons.mp member with same | member
    · cases same
      simp [get?]
    · have other : k ≠ key := fun same =>
        String.lt_irrefl key (same ▸ first (key, value) member)
      simp [get?, other, ih sorted member]

theorem nodup_keys {pairs : Dictionary α} (sorted : pairs.Sorted) : pairs.keys.Nodup :=
  (sorted_iff_keys.mp sorted).imp fun {a b} less same => by
    subst same
    exact String.lt_irrefl a less

end Sorted

end FleetControl.Dictionary
