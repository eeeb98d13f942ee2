import FleetControl.Poll.Apply
import Mathlib.Data.List.Induction
import Mathlib.Data.List.Nodup

/-!
# What a run has shown

A board is a function of the entries that were shown and of the keys that were resolved. This is
that function, and what every change of a board does to it.

1. `firstKeys` and `lastName` read a history of entries: which keys it shows, in which order, and
   under which name each was seen last.
2. `Board.showing` is the board of a history. The lemmas `observe_showing`, `resolve_showing` and
   `resolveAll_showing` say how the history grows; no proof on runs opens a board after them.
3. `observeAll_showing` is the same for all entries of a fetch with distinct keys.
-/

namespace FleetControl

/-- The keys of entries in the order of their first occurrence. -/
def firstKeys (entries : List Resource) : List String :=
  (entries.map (·.key)).eraseDups

/-- The name under which entries showed a key last; a key that they never showed names itself. -/
def lastName (entries : List Resource) (key : String) : String :=
  ((entries.reverse.find? fun r => r.key == key).map (·.displayName)).getD key

def failedKeys (resources : List Resource) : List String :=
  (resources.filter fun r => r.status == .failed).map (·.key)

/-! ## Histories of entries -/

theorem eraseDups_snoc (keys : List String) (k : String) :
    (keys ++ [k]).eraseDups = if k ∈ keys then keys.eraseDups else keys.eraseDups ++ [k] := by
  rw [List.eraseDups_append]
  by_cases h : k ∈ keys <;> simp [List.removeAll, List.eraseDups_cons, h]

theorem nodup_eraseDups (keys : List String) : keys.eraseDups.Nodup := by
  induction keys using List.reverseRecOn with
  | nil => exact List.nodup_nil
  | append_singleton keys last ih =>
    rw [eraseDups_snoc]
    by_cases h : last ∈ keys
    · rw [if_pos h]
      exact ih
    · rw [if_neg h, ← List.concat_eq_append]
      exact ih.concat (mt List.mem_eraseDups.mp h)

@[simp] theorem mem_firstKeys {entries : List Resource} {key : String} :
    key ∈ firstKeys entries ↔ ∃ r ∈ entries, r.key = key := by
  rw [firstKeys, List.mem_eraseDups, List.mem_map]

theorem firstKeys_snoc (entries : List Resource) (r : Resource) :
    firstKeys (entries ++ [r]) =
      if r.key ∈ firstKeys entries then firstKeys entries else firstKeys entries ++ [r.key] := by
  unfold firstKeys
  rw [List.map_append, List.map_singleton, eraseDups_snoc]
  simp only [List.mem_eraseDups]

theorem nodup_firstKeys (entries : List Resource) : (firstKeys entries).Nodup :=
  nodup_eraseDups _

theorem lastName_snoc (entries : List Resource) (r : Resource) (key : String) :
    lastName (entries ++ [r]) key = if r.key = key then r.displayName else lastName entries key := by
  unfold lastName
  rw [List.reverse_append, List.reverse_singleton, List.singleton_append]
  by_cases h : r.key = key
  · simp [h]
  · rw [List.find?_cons_of_neg (by simpa using h), if_neg h]

theorem lastName_append_of_not_mem (entries more : List Resource) {key : String}
    (h : key ∉ more.map (·.key)) : lastName (entries ++ more) key = lastName entries key := by
  induction more using List.reverseRecOn with
  | nil => rw [List.append_nil]
  | append_singleton more r ih =>
    rw [List.map_append, List.mem_append, not_or] at h
    rw [← List.append_assoc, lastName_snoc, ih h.1, if_neg]
    intro hr
    exact h.2 (by simp [hr])

/-- The entries of one fetch with distinct keys name what they show. -/
theorem lastName_append_of_mem (entries : List Resource) {more : List Resource} {r : Resource}
    (distinct : (more.map (·.key)).Nodup) (h : r ∈ more) :
    lastName (entries ++ more) r.key = r.displayName := by
  induction more using List.reverseRecOn with
  | nil => exact absurd h List.not_mem_nil
  | append_singleton more s ih =>
    rw [List.map_append, List.nodup_append] at distinct
    obtain ⟨hmore, -, apart⟩ := distinct
    rw [← List.append_assoc, lastName_snoc]
    rcases List.mem_append.mp h with h | h
    · rw [if_neg, ih hmore h]
      intro hs
      exact apart r.key (List.mem_map_of_mem h) s.key (by simp) hs.symm
    · rw [List.mem_singleton.mp h, if_pos rfl]

theorem lastName_of_not_mem {entries : List Resource} {key : String}
    (h : key ∉ firstKeys entries) : lastName entries key = key := by
  unfold lastName
  rw [List.find?_eq_none.mpr]
  · rfl
  · intro r hr he
    exact h (mem_firstKeys.mpr ⟨r, List.mem_reverse.mp hr, by simpa using he⟩)

theorem filter_firstKeys_append (entries more : List Resource) :
    (firstKeys (entries ++ more)).filter (· ∉ more.map (·.key)) =
      (firstKeys entries).filter (· ∉ more.map (·.key)) := by
  have step : ∀ part : List Resource, part ⊆ more →
      (firstKeys (entries ++ part)).filter (· ∉ more.map (·.key)) =
        (firstKeys entries).filter (· ∉ more.map (·.key)) := by
    -- the list that is filtered by stays whole while the one that is appended grows
    intro part
    induction part using List.reverseRecOn with
    | nil => intro _; rw [List.append_nil]
    | append_singleton part r ih =>
      intro hp
      have hr : r.key ∈ more.map (·.key) := List.mem_map_of_mem (hp (by simp))
      rw [← List.append_assoc, firstKeys_snoc]
      split
      · exact ih fun s hs => hp (by simp [hs])
      · rw [List.filter_append, ih fun s hs => hp (by simp [hs])]
        simpa using List.mem_map.mp hr
  exact step more (List.Subset.refl more)

/-! ## The board of a history -/

namespace Board

/-- The board on which entries were shown and the spinners of `done` were resolved. -/
def showing (entries : List Resource) (done : List String) : Board :=
  (firstKeys entries).map fun key => ⟨key, lastName entries key, key ∈ done⟩

theorem showing_nil (done : List String) : showing [] done = [] := rfl

@[simp] theorem keys_showing (entries : List Resource) (done : List String) :
    (showing entries done).keys = firstKeys entries := by
  unfold keys showing
  rw [List.map_map]
  exact List.map_id' (firstKeys entries)

theorem find?_showing (entries : List Resource) (done : List String) (key : String) :
    (showing entries done).find? key =
      if key ∈ firstKeys entries then some ⟨key, lastName entries key, key ∈ done⟩ else none := by
  unfold showing find?
  induction firstKeys entries with
  | nil => rfl
  | cons first rest ih =>
    rw [List.map_cons]
    by_cases h : first = key
    · rw [List.find?_cons_of_pos (by simpa using h), if_pos (by simp [h]), h]
    · rw [List.find?_cons_of_neg (by simpa using h), ih]
      simp [Ne.symm h]

@[simp] theorem nameOf_showing (entries : List Resource) (done : List String) (key : String) :
    (showing entries done).nameOf key = lastName entries key := by
  unfold nameOf
  rw [find?_showing]
  by_cases h : key ∈ firstKeys entries
  · rw [if_pos h]
    rfl
  · rw [if_neg h, lastName_of_not_mem h]
    rfl

theorem unresolved_showing (entries : List Resource) (done : List String) :
    (showing entries done).unresolved = (firstKeys entries).filter (· ∉ done) := by
  unfold unresolved showing
  rw [List.filter_map, List.map_map]
  simp only [Function.comp_def, List.map_id_fun', decide_not, id_eq]

theorem observe_showing (entries : List Resource) {done : List String} (r : Resource)
    (text : String) (h : r.key ∉ done) :
    (showing entries done).observe r.key r.displayName text =
      (showing (entries ++ [r]) done,
        [if r.key ∈ firstKeys entries then .update r.key text else .create r.key text]) := by
  have same : ∀ key, r.key ≠ key → lastName (entries ++ [r]) key = lastName entries key :=
    fun key hk => by rw [lastName_snoc, if_neg hk]
  have own : lastName (entries ++ [r]) r.key = r.displayName := by rw [lastName_snoc, if_pos rfl]
  unfold observe
  rw [find?_showing]
  by_cases hk : r.key ∈ firstKeys entries
  · -- an update moves no key and renames one
    simp only [if_pos hk, h, decide_false, Bool.false_eq_true, if_false]
    refine Prod.ext ?_ rfl
    unfold change showing
    rw [firstKeys_snoc, if_pos hk, List.map_map]
    apply List.map_congr_left
    intro key _
    by_cases he : key = r.key
    · subst he
      simp [own]
    · simp [he, same key (Ne.symm he)]
  · simp only [if_neg hk]
    refine Prod.ext ?_ rfl
    unfold showing
    rw [firstKeys_snoc, if_neg hk, List.map_append, List.map_singleton, own]
    simp only [h, decide_false]
    refine congrArg (· ++ _) (List.map_congr_left ?_)
    intro key he
    rw [same key fun hr => hk (hr ▸ he)]

theorem resolve_showing (entries : List Resource) {done : List String} {key : String}
    (outcome : Outcome) (text : String) (hk : key ∈ firstKeys entries) (h : key ∉ done) :
    (showing entries done).resolve key outcome text =
      (showing entries (done ++ [key]), [.resolve key outcome text]) := by
  unfold resolve
  rw [find?_showing]
  simp only [if_pos hk, h, decide_false, Bool.false_eq_true, if_false]
  refine Prod.ext ?_ rfl
  unfold change showing
  rw [List.map_map]
  apply List.map_congr_left
  intro other _
  by_cases he : other = key <;> simp [he]

theorem resolveAll_showing (entries : List Resource) {done : List String}
    (items : List (String × Outcome × String)) (distinct : (items.map (·.1)).Nodup)
    (known : ∀ item ∈ items, item.1 ∈ firstKeys entries)
    (open_ : ∀ item ∈ items, item.1 ∉ done) :
    (showing entries done).resolveAll items =
      (showing entries (done ++ items.map (·.1)),
        items.map fun item => .resolve item.1 item.2.1 item.2.2) := by
  induction items generalizing done with
  | nil => simp [resolveAll]
  | cons item rest ih =>
    obtain ⟨key, outcome, text⟩ := item
    rw [List.map_cons, List.nodup_cons] at distinct
    rw [List.forall_mem_cons] at known open_
    unfold resolveAll
    rw [resolve_showing entries outcome text known.1 open_.1]
    dsimp only
    rw [ih distinct.2 known.2]
    · simp
    · intro other ho
      rw [List.mem_append, List.mem_singleton, not_or]
      exact ⟨open_.2 other ho, fun he => distinct.1 (List.mem_map.mpr ⟨other, ho, he⟩)⟩

end Board

/-! ## The entries of a fetch -/

/-- The calls that show an entry after a history; a failed one is resolved on the spot. -/
def entryCalls (earlier : List Resource) (r : Resource) : List Call :=
  let line := r.summaryLine r.status
  (if r.key ∈ firstKeys earlier then .update r.key line else .create r.key line) ::
    if r.status = .failed then [.resolve r.key .error line] else []

def showCalls (earlier : List Resource) : List Resource → List Call
  | [] => []
  | r :: rest => entryCalls earlier r ++ showCalls (earlier ++ [r]) rest

theorem observeResource_showing (entries : List Resource) {done : List String} {r : Resource}
    (h : r.key ∉ done) :
    observeResource (.showing entries done) r =
      (.showing (entries ++ [r]) (done ++ failedKeys [r]), entryCalls entries r) := by
  have known : r.key ∈ firstKeys (entries ++ [r]) := mem_firstKeys.mpr ⟨r, by simp, rfl⟩
  unfold observeResource entryCalls failedKeys
  dsimp only
  rw [Board.observe_showing entries r _ h]
  by_cases hf : r.status = .failed
  · rw [if_pos hf, if_pos hf]
    dsimp only
    rw [Board.resolve_showing _ _ _ known h]
    simp [hf]
  · rw [if_neg hf, if_neg hf]
    simp [hf]

/-- A fetch with distinct keys grows the history by its entries and resolves those that failed. -/
theorem observeAll_showing (entries : List Resource) {done : List String}
    (resources : List Resource) (distinct : (resources.map (·.key)).Nodup)
    (open_ : ∀ r ∈ resources, r.key ∉ done) :
    observeAll (.showing entries done) resources =
      (.showing (entries ++ resources) (done ++ failedKeys resources),
        showCalls entries resources) := by
  induction resources generalizing entries done with
  | nil => simp [observeAll, failedKeys, showCalls]
  | cons r rest ih =>
    rw [List.map_cons, List.nodup_cons] at distinct
    rw [List.forall_mem_cons] at open_
    unfold observeAll
    rw [observeResource_showing entries open_.1]
    dsimp only
    rw [ih (entries ++ [r]) distinct.2]
    · simp [showCalls, failedKeys, List.filter_cons]
      split <;> simp
    · intro s hs
      rw [List.mem_append, not_or]
      refine ⟨open_.2 s hs, fun hf => ?_⟩
      -- a failed key is resolved, and a second entry of it would not be shown any more
      obtain ⟨t, ht, he⟩ := List.mem_map.mp hf
      rw [List.mem_singleton.mp (List.mem_of_mem_filter ht)] at he
      exact distinct.1 (he ▸ List.mem_map_of_mem hs)

end FleetControl
