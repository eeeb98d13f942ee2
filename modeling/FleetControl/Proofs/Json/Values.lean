import FleetControl.Proofs.Json.Rereading
import FleetControl.Proofs.Text.Sorted

/-!
# Values and their trees

A value that was read has all its objects sorted and nests no deeper than was allowed. What is
proved:

1. `Tree.toJson?_eq_some` says this of every value that a tree gives.
2. `Tree.toJson?_ofJson` is the converse: such a value is given back by its own tree. Any other is
   given back in normal form (`Tree.toJson?_ofJson_normal`).
3. `parse?_compact`: a value that can be read at all when it is written without blanks is read as it
   is.
4. `plainFields_iff`, `legibleFields_iff`, `sortedFields_iff` and `fieldsDepth_le_iff` say what the
   properties of an object are, pair by pair.
-/

namespace FleetControl.Json

mutual
def Sorted : Json → Prop
  | .array items => SortedItems items
  | .object fields => Dictionary.Sorted fields ∧ SortedFields fields
  | _ => True

def SortedItems : List Json → Prop
  | [] => True
  | item :: rest => item.Sorted ∧ SortedItems rest

def SortedFields : List (String × Json) → Prop
  | [] => True
  | (_, value) :: rest => value.Sorted ∧ SortedFields rest
end

/-- How deeply arrays and objects nest in a value. -/
def depth (v : Json) : Nat :=
  (Tree.ofJson v).depth

theorem plainFields_iff {fields : List (String × Json)} :
    PlainFields fields ↔ ∀ kv ∈ fields, kv.2.Plain := by
  induction fields with
  | nil => simp [PlainFields]
  | cons kv rest ih => simp only [PlainFields, ih, List.forall_mem_cons]

theorem legibleFields_iff {fields : List (String × Json)} :
    LegibleFields fields ↔ ∀ kv ∈ fields, kv.2.Legible := by
  induction fields with
  | nil => simp [LegibleFields]
  | cons kv rest ih => simp only [LegibleFields, ih, List.forall_mem_cons]

theorem legibleItems_iff {items : List Json} : LegibleItems items ↔ ∀ v ∈ items, v.Legible := by
  induction items with
  | nil => simp [LegibleItems]
  | cons v rest ih => simp only [LegibleItems, ih, List.forall_mem_cons]

theorem sortedFields_iff {fields : List (String × Json)} :
    SortedFields fields ↔ ∀ kv ∈ fields, kv.2.Sorted := by
  induction fields with
  | nil => simp [SortedFields]
  | cons kv rest ih => simp only [SortedFields, ih, List.forall_mem_cons]

theorem plainItems_strings (items : List String) : PlainItems (items.map .string) := by
  induction items with
  | nil => trivial
  | cons s rest ih => exact ⟨trivial, ih⟩

theorem sortedItems_strings (items : List String) : SortedItems (items.map .string) := by
  induction items with
  | nil => trivial
  | cons s rest ih => exact ⟨trivial, ih⟩

theorem fieldsDepth_le_iff {fields : List (String × Json)} {d : Nat} :
    Tree.fieldsDepth (Tree.ofFields fields) ≤ d ↔ ∀ kv ∈ fields, kv.2.depth ≤ d := by
  induction fields with
  | nil => simp [Tree.ofFields, Tree.fieldsDepth]
  | cons kv rest ih =>
    obtain ⟨key, value⟩ := kv
    simp only [Tree.ofFields, Tree.fieldsDepth, Nat.max_le, ih, List.forall_mem_cons, depth]

theorem itemsDepth_le_iff {items : List Json} {d : Nat} :
    Tree.itemsDepth (Tree.ofItems items) ≤ d ↔ ∀ v ∈ items, v.depth ≤ d := by
  induction items with
  | nil => simp [Tree.ofItems, Tree.itemsDepth]
  | cons v rest ih =>
    simp only [Tree.ofItems, Tree.itemsDepth, Nat.max_le, ih, List.forall_mem_cons, depth]

theorem itemsDepth_strings (items : List String) :
    Tree.itemsDepth (Tree.ofItems (items.map .string)) = 0 := by
  induction items with
  | nil => rfl
  | cons s rest ih => simp [Tree.ofItems, Tree.itemsDepth, Tree.ofJson, Tree.depth, ih]

theorem depth_object_le_iff {fields : List (String × Json)} {d : Nat} :
    (object fields).depth ≤ d + 1 ↔ ∀ kv ∈ fields, kv.2.depth ≤ d := by
  rw [← fieldsDepth_le_iff]
  simp [depth, Tree.ofJson, Tree.depth]

theorem depth_array_le_iff {items : List Json} {d : Nat} :
    (array items).depth ≤ d + 1 ↔ ∀ v ∈ items, v.depth ≤ d := by
  rw [← itemsDepth_le_iff]
  simp [depth, Tree.ofJson, Tree.depth]

/-! ## From a tree to its value -/

namespace Tree

mutual
/-- The value of a tree has its objects sorted and keeps to the depth. -/
theorem toJson?_eq_some : ∀ (t : Tree) (d : Nat) (v : Json), t.toJson? d = some v →
    v.Sorted ∧ v.depth ≤ d
  | .null, _, _, h | .bool _, _, _, h | .number (some (.int _)), _, _, h
  | .number (some (.float _)), _, _, h | .string (some _), _, _, h => by
    cases h
    exact ⟨trivial, Nat.zero_le _⟩
  | .number none, _, _, h | .string none, _, _, h => by cases h
  | .array _, 0, _, h | .object _, 0, _, h => by cases h
  | .array items, d + 1, v, h => by
    obtain ⟨values, read, rfl⟩ := Option.map_eq_some_iff.mp h
    obtain ⟨sorted, deep⟩ := itemsToJson?_eq_some items d values read
    exact ⟨sorted, Nat.succ_le_succ deep⟩
  | .object fields, d + 1, v, h => by
    obtain ⟨out, read, rfl⟩ := Option.map_eq_some_iff.mp h
    obtain ⟨sorted, all⟩ := fieldsToJson?_eq_some fields d [] out read .nil (List.forall_mem_nil _)
    exact ⟨⟨sorted, sortedFields_iff.mpr fun kv hk => (all kv hk).1⟩,
      depth_object_le_iff.mpr fun kv hk => (all kv hk).2⟩

theorem itemsToJson?_eq_some : ∀ (items : List Tree) (d : Nat) (values : List Json),
    itemsToJson? d items = some values →
    SortedItems values ∧ itemsDepth (ofItems values) ≤ d
  | [], _, _, h => by
    cases h
    exact ⟨trivial, Nat.zero_le _⟩
  | item :: rest, d, values, h => by
    simp only [itemsToJson?] at h
    split at h
    · next v vs first others =>
      cases h
      obtain ⟨sorted, deep⟩ := toJson?_eq_some item d v first
      obtain ⟨allSorted, allDeep⟩ := itemsToJson?_eq_some rest d vs others
      exact ⟨⟨sorted, allSorted⟩, Nat.max_le.mpr ⟨deep, allDeep⟩⟩
    · cases h

theorem fieldsToJson?_eq_some : ∀ (fields : List (Option String × Tree)) (d : Nat)
    (acc out : Fields), fieldsToJson? d fields acc = some out → acc.Sorted →
    (∀ kv ∈ acc, kv.2.Sorted ∧ kv.2.depth ≤ d) →
    out.Sorted ∧ ∀ kv ∈ out, kv.2.Sorted ∧ kv.2.depth ≤ d
  | [], _, _, _, h, sorted, all => by
    cases h
    exact ⟨sorted, all⟩
  | (none, _) :: _, _, _, _, h, _, _ => by cases h
  | (some key, t) :: rest, d, acc, out, h, sorted, all => by
    simp only [fieldsToJson?] at h
    split at h
    · cases h
    · next v read =>
      refine fieldsToJson?_eq_some rest d _ out h (sorted.insert key v) fun kv hk => ?_
      rcases Dictionary.mem_insert hk with rfl | hk
      · exact toJson?_eq_some t d v read
      · exact all kv hk
end

mutual
theorem depth_le_of_toJson? : ∀ (t : Tree) (d : Nat), (t.toJson? d).isSome → t.depth ≤ d
  | .null, _, _ | .bool _, _, _ | .number _, _, _ | .string _, _, _ => Nat.zero_le _
  | .array _, 0, h | .object _, 0, h => by cases h
  | .array items, d + 1, h => by
    have inner : (itemsToJson? d items).isSome := by simpa [toJson?] using h
    exact Nat.succ_le_succ (itemsDepth_le_of_itemsToJson? items d inner)
  | .object fields, d + 1, h => by
    have inner : (fieldsToJson? d fields []).isSome := by simpa [toJson?] using h
    exact Nat.succ_le_succ (fieldsDepth_le_of_fieldsToJson? fields d [] inner)

theorem itemsDepth_le_of_itemsToJson? : ∀ (items : List Tree) (d : Nat),
    (itemsToJson? d items).isSome → itemsDepth items ≤ d
  | [], _, _ => Nat.zero_le _
  | item :: rest, d, h => by
    unfold itemsToJson? at h
    split at h
    · next first others =>
      exact Nat.max_le.mpr ⟨depth_le_of_toJson? item d (Option.isSome_of_eq_some first),
        itemsDepth_le_of_itemsToJson? rest d (Option.isSome_of_eq_some others)⟩
    · cases h

theorem fieldsDepth_le_of_fieldsToJson? : ∀ (fields : List (Option String × Tree)) (d : Nat)
    (acc : Fields), (fieldsToJson? d fields acc).isSome → fieldsDepth fields ≤ d
  | [], _, _, _ => Nat.zero_le _
  | (none, _) :: _, _, _, h => by cases h
  | (some key, t) :: rest, d, acc, h => by
    unfold fieldsToJson? at h
    split at h
    · cases h
    · next v read =>
      exact Nat.max_le.mpr ⟨depth_le_of_toJson? t d (Option.isSome_of_eq_some read),
        fieldsDepth_le_of_fieldsToJson? rest d _ h⟩
end

/-! ## From a value to its tree and back -/

mutual
/-- A value with its objects sorted is given back by its tree, if that may nest as deeply. -/
theorem toJson?_ofJson : ∀ (v : Json) (d : Nat), v.Sorted → v.depth ≤ d →
    (ofJson v).toJson? d = some v
  | .null, _, _, _ | .bool _, _, _, _ | .int _, _, _, _ | .float _, _, _, _ | .string _, _, _, _ => rfl
  | .array items, d, sorted, deep => by
    obtain ⟨d, rfl⟩ : ∃ e, d = e + 1 := Nat.exists_eq_succ_of_ne_zero (by
      simp only [Json.depth, ofJson, depth] at deep
      omega)
    have read := itemsToJson?_ofItems items d sorted (Nat.le_of_succ_le_succ deep)
    simp [ofJson, toJson?, read]
  | .object fields, d, sorted, deep => by
    obtain ⟨d, rfl⟩ : ∃ e, d = e + 1 := Nat.exists_eq_succ_of_ne_zero (by
      simp only [Json.depth, ofJson, depth] at deep
      omega)
    have read := fieldsToJson?_ofFields fields d [] sorted.1 sorted.2 (Nat.le_of_succ_le_succ deep)
      (List.forall_mem_nil _)
    simp [ofJson, toJson?, read]

theorem itemsToJson?_ofItems : ∀ (items : List Json) (d : Nat), SortedItems items →
    itemsDepth (ofItems items) ≤ d → itemsToJson? d (ofItems items) = some items
  | [], _, _, _ => rfl
  | item :: rest, d, sorted, deep => by
    obtain ⟨first, others⟩ := Nat.max_le.mp deep
    simp [ofItems, itemsToJson?, toJson?_ofJson item d sorted.1 first,
      itemsToJson?_ofItems rest d sorted.2 others]

theorem fieldsToJson?_ofFields : ∀ (fields : List (String × Json)) (d : Nat) (acc : Fields),
    Dictionary.Sorted fields → SortedFields fields → fieldsDepth (ofFields fields) ≤ d →
    (∀ a ∈ acc, ∀ kv ∈ fields, a.1 < kv.1) →
    fieldsToJson? d (ofFields fields) acc = some (acc ++ fields)
  | [], _, acc, _, _, _, _ => by simp [ofFields, fieldsToJson?]
  | (key, value) :: rest, d, acc, sorted, inner, deep, before => by
    obtain ⟨first, sorted⟩ := List.pairwise_cons.mp sorted
    obtain ⟨valueDeep, restDeep⟩ := Nat.max_le.mp deep
    -- What was read so far comes before everything to come, so each pair goes to the end.
    have last : acc.insert key value = acc ++ [(key, value)] :=
      Dictionary.insert_last value fun a ha => before a ha (key, value) List.mem_cons_self
    have between : ∀ a ∈ acc ++ [(key, value)], ∀ kv ∈ rest, a.1 < kv.1 := by
      intro a ha kv hk
      rcases List.mem_append.mp ha with ha | ha
      · exact before a ha kv (List.mem_cons_of_mem _ hk)
      · rw [List.mem_singleton.mp ha]
        exact first kv hk
    simp only [ofFields, fieldsToJson?, toJson?_ofJson value d inner.1 valueDeep, last]
    rw [fieldsToJson?_ofFields rest d _ sorted inner.2 restDeep between]
    simp
end

mutual
/-- Every value is read from its tree in normal form, if that may nest as deeply. -/
theorem toJson?_ofJson_normal : ∀ (v : Json) (d : Nat), v.depth ≤ d →
    (ofJson v).toJson? d = some v.normal
  | .null, _, _ | .bool _, _, _ | .int _, _, _ | .float _, _, _ | .string _, _, _ => rfl
  | .array items, 0, deep => by simp [Json.depth, ofJson, depth] at deep
  | .object fields, 0, deep => by simp [Json.depth, ofJson, depth] at deep
  | .array items, d + 1, deep => by
    have read := itemsToJson?_normal items d (Nat.le_of_succ_le_succ deep)
    simp [ofJson, toJson?, read, normal]
  | .object fields, d + 1, deep => by
    have read := fieldsToJson?_normal fields d [] (Nat.le_of_succ_le_succ deep)
    simp [ofJson, toJson?, read, normal]

theorem itemsToJson?_normal : ∀ (items : List Json) (d : Nat), itemsDepth (ofItems items) ≤ d →
    itemsToJson? d (ofItems items) = some (normalItems items)
  | [], _, _ => rfl
  | item :: rest, d, deep => by
    obtain ⟨first, others⟩ := Nat.max_le.mp deep
    simp [ofItems, itemsToJson?, normalItems, toJson?_ofJson_normal item d first,
      itemsToJson?_normal rest d others]

theorem fieldsToJson?_normal : ∀ (fields : List (String × Json)) (d : Nat) (acc : Fields),
    fieldsDepth (ofFields fields) ≤ d →
    fieldsToJson? d (ofFields fields) acc = some (normalFields fields acc)
  | [], _, _, _ => rfl
  | (key, value) :: rest, d, acc, deep => by
    obtain ⟨first, others⟩ := Nat.max_le.mp deep
    simp only [ofFields, fieldsToJson?, normalFields, toJson?_ofJson_normal value d first]
    exact fieldsToJson?_normal rest d _ others
end

end Tree

theorem normal_of_sorted {v : Json} (sorted : v.Sorted) : v.normal = v := by
  have same := Tree.toJson?_ofJson_normal v v.depth (Nat.le_refl _)
  rw [Tree.toJson?_ofJson v v.depth sorted (Nat.le_refl _)] at same
  exact (Option.some.inj same).symm

theorem normalFields_eq_insertAll {fields : List (String × Json)}
    (sorted : ∀ kv ∈ fields, kv.2.Sorted) (acc : Fields) :
    normalFields fields acc = acc.insertAll fields := by
  induction fields generalizing acc with
  | nil => rfl
  | cons kv rest ih =>
    obtain ⟨first, others⟩ := List.forall_mem_cons.mp sorted
    rw [normalFields, normal_of_sorted first]
    exact ih others _

/-! ## Texts -/

theorem parse?_of_tree {text : String} {tree : Tree} (h : Tree.parse text = .ok tree) :
    parse? text = tree.toJson? maxDepth := by
  simp only [parse?, h]

theorem parse?_compact {v : Json} (plain : v.Plain) (sorted : v.Sorted)
    (readable : (parse? v.compact).isSome) : parse? v.compact = some v := by
  unfold parse? at readable ⊢
  rw [Tree.parse_compact plain] at readable ⊢
  exact Tree.toJson?_ofJson v maxDepth sorted (Tree.depth_le_of_toJson? _ _ readable)

end FleetControl.Json
