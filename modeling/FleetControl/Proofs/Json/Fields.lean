import FleetControl.Json.Decode
import FleetControl.Proofs.Json.Values

/-!
# The fields of a record

A record is read from an object by the names of its fields or from an array by their order, and is
written as an object. What is proved:

1. `Tree.plain_toJson?`: a text whose numbers are all integers (`Tree.Integral`) gives values with
   such numbers, which the reader reads as they are written (`Json.Plain`).
2. `Tree.get?_fieldsToJson?`: an object has under each key the value of the last pair.
3. `Slots.ofObject_eq_ok`: the fields of an object are the trees of its pairs, and the pairs that
   belong to no field are kept in order (`Slots.unknown`).
4. `Slots.ofTree_pairs` and `Slots.ofOpenTree_pairs`: the pairs of a written record (`Slots.pairs`)
   go back into the fields that they came from, absent fields stay absent, and pairs under other
   names are kept. This needs that no name of a field is that of an earlier one (`Slots.Distinct`).
-/

namespace FleetControl

theorem eq_ok_of_bind {ε α β : Type} {x : Except ε α} {f : α → Except ε β} {b : β}
    (h : x >>= f = .ok b) : ∃ a, x = .ok a ∧ f a = .ok b := by
  cases x with
  | error e => cases h
  | ok a => exact ⟨a, rfl, h⟩

end FleetControl

namespace FleetControl.Json

mutual
/-- Whether every number of a tree is an integer that is read as one: `1.0`, `1e3` and `-0` are
doubles. -/
def Tree.Integral : Tree → Prop
  | .number value => ∃ n, value = some (.int n) ∧ InRange n
  | .array items => Tree.IntegralItems items
  | .object fields => Tree.IntegralFields fields
  | _ => True

def Tree.IntegralItems : List Tree → Prop
  | [] => True
  | item :: rest => item.Integral ∧ Tree.IntegralItems rest

def Tree.IntegralFields : List (Option String × Tree) → Prop
  | [] => True
  | (_, t) :: rest => t.Integral ∧ Tree.IntegralFields rest
end

namespace Tree

theorem integralFields_iff {fields : List (Option String × Tree)} :
    IntegralFields fields ↔ ∀ kv ∈ fields, kv.2.Integral := by
  induction fields with
  | nil => simp [IntegralFields]
  | cons kv rest ih => simp only [IntegralFields, ih, List.forall_mem_cons]

theorem integralItems_iff {items : List Tree} : IntegralItems items ↔ ∀ t ∈ items, t.Integral := by
  induction items with
  | nil => simp [IntegralItems]
  | cons t rest ih => simp only [IntegralItems, ih, List.forall_mem_cons]

mutual
theorem plain_toJson? : ∀ (t : Tree) (d : Nat) (v : Json), t.Integral → t.toJson? d = some v →
    v.Plain
  | .null, _, _, _, h | .bool _, _, _, _, h | .string (some _), _, _, _, h => by
    cases h
    trivial
  | .string none, _, _, _, h => by cases h
  | .number value, _, _, integral, h => by
    obtain ⟨n, rfl, range⟩ := integral
    cases h
    exact range
  | .array _, 0, _, _, h | .object _, 0, _, _, h => by cases h
  | .array items, d + 1, v, integral, h => by
    obtain ⟨values, read, rfl⟩ := Option.map_eq_some_iff.mp h
    exact plain_itemsToJson? items d values integral read
  | .object fields, d + 1, v, integral, h => by
    obtain ⟨out, read, rfl⟩ := Option.map_eq_some_iff.mp h
    exact plainFields_iff.mpr
      (plain_fieldsToJson? fields d [] out integral (List.forall_mem_nil _) read)

theorem plain_itemsToJson? : ∀ (items : List Tree) (d : Nat) (values : List Json),
    IntegralItems items → itemsToJson? d items = some values → PlainItems values
  | [], _, _, _, h => by
    cases h
    trivial
  | item :: rest, d, values, integral, h => by
    simp only [itemsToJson?] at h
    split at h
    · next v vs first others =>
      cases h
      exact ⟨plain_toJson? item d v integral.1 first,
        plain_itemsToJson? rest d vs integral.2 others⟩
    · cases h

theorem plain_fieldsToJson? : ∀ (fields : List (Option String × Tree)) (d : Nat)
    (acc out : Fields), IntegralFields fields → (∀ kv ∈ acc, kv.2.Plain) →
    fieldsToJson? d fields acc = some out → ∀ kv ∈ out, kv.2.Plain
  | [], _, _, _, _, plain, h => by
    cases h
    exact plain
  | (none, _) :: _, _, _, _, _, _, h => by cases h
  | (some key, t) :: rest, d, acc, out, integral, plain, h => by
    simp only [fieldsToJson?] at h
    split at h
    · cases h
    · next v read =>
      refine plain_fieldsToJson? rest d _ out integral.2 (fun kv hk => ?_) h
      rcases Dictionary.mem_insert hk with rfl | hk
      · exact plain_toJson? t d v integral.1 read
      · exact plain kv hk
end

end Tree

/-! ## Maps of any values -/

/-- Reading pairs one after the other is reading the object that they make. -/
theorem foldlM_pairs (d : Nat) (fields : List (Option String × Tree)) (acc : Fields) :
    fields.foldlM (fun (acc : Fields) kv => do
        let key ← Decoder.keyOf kv.1
        let value ← Decoder.anyValue d kv.2
        pure (acc.insert key value)) acc =
      match Tree.fieldsToJson? d fields acc with
      | some out => .ok out
      | none => .error .noValue := by
  induction fields generalizing acc with
  | nil => rfl
  | cons kv rest ih =>
    obtain ⟨key, t⟩ := kv
    rw [List.foldlM_cons]
    cases key with
    | none => rfl
    | some key =>
      cases read : t.toJson? d with
      | none => simp [Decoder.keyOf, Decoder.anyValue, read, Tree.fieldsToJson?, bind, Except.bind]
      | some v =>
        have := ih (acc.insert key v)
        simpa [Decoder.keyOf, Decoder.anyValue, read, Tree.fieldsToJson?, bind, Except.bind, pure,
          Except.pure] using this

theorem fieldMap_object (d : Nat) (fields : List (Option String × Tree)) :
    Decoder.fieldMap (d + 1) (.object fields) =
      match Tree.fieldsToJson? d fields [] with
      | some out => .ok out
      | none => .error .noValue :=
  foldlM_pairs d fields []

/-- The pairs that a record has no field for are read as the object that they make. -/
theorem rest_eq (slots : Slots) :
    slots.rest =
      match Tree.fieldsToJson? slots.depth (slots.others.map fun kv => (some kv.1, kv.2)) [] with
      | some out => .ok out
      | none => .error .noValue := by
  rw [← foldlM_pairs, List.foldlM_map]
  rfl

theorem rest_of_others {slots : Slots} {kept : Fields}
    (others : slots.others = kept.map fun kv => (kv.1, Tree.ofJson kv.2)) :
    slots.rest =
      match Tree.fieldsToJson? slots.depth (Tree.ofFields kept) [] with
      | some out => .ok out
      | none => .error .noValue := by
  have pairs : (slots.others.map fun kv => (some kv.1, kv.2)) = Tree.ofFields kept := by
    rw [others]
    clear others
    induction kept with
    | nil => rfl
    | cons kv rest ih => simpa [Tree.ofFields] using ih
  rw [rest_eq, pairs]

/-- The tree of the last pair with a key. -/
def Tree.lastOf? : List (Option String × Tree) → String → Option Tree
  | [], _ => none
  | (name, t) :: rest, key =>
    match lastOf? rest key with
    | some later => some later
    | none => if name = some key then some t else none

theorem Tree.lastOf?_of_ne {name : Option String} {key : String} (other : name ≠ some key)
    (t : Tree) (rest : List (Option String × Tree)) :
    lastOf? ((name, t) :: rest) key = lastOf? rest key := by
  simp only [lastOf?, other, if_false]
  split
  · next later => exact later.symm
  · next none => exact none.symm

theorem Tree.get?_fieldsToJson? {d : Nat} {fields : List (Option String × Tree)} {acc out : Fields}
    (h : fieldsToJson? d fields acc = some out) (key : String) :
    out.get? key = match lastOf? fields key with
      | some t => t.toJson? d
      | none => acc.get? key := by
  induction fields generalizing acc with
  | nil =>
    cases h
    rfl
  | cons kv rest ih =>
    obtain ⟨name, t⟩ := kv
    cases name with
    | none => cases h
    | some name =>
      simp only [fieldsToJson?] at h
      split at h
      · cases h
      · next v read =>
        rw [ih h]
        cases later : lastOf? rest key with
        | some u => simp [lastOf?, later]
        | none => by_cases same : name = key <;> simp [lastOf?, later, same, read, Dictionary.get?_insert]

theorem Tree.mem_of_lastOf? {fields : List (Option String × Tree)} {key : String} {t : Tree}
    (h : lastOf? fields key = some t) : (some key, t) ∈ fields := by
  induction fields with
  | nil => cases h
  | cons kv rest ih =>
    obtain ⟨name, u⟩ := kv
    cases later : lastOf? rest key with
    | some v =>
      simp only [lastOf?, later] at h
      exact List.mem_cons_of_mem _ (ih (later.trans h))
    | none =>
      by_cases same : name = some key
      · simp only [lastOf?, later, same, if_true, Option.some.injEq] at h
        simp [same, h]
      · simp [lastOf?, later, same] at h

/-! ## Fields -/

namespace Slots

variable {names : List FieldNames}

/-- The pairs of an object that belong to no field. -/
def unknown (names : List FieldNames) (fields : List (Option String × Tree)) :
    List (String × Tree) :=
  fields.filterMap fun kv =>
    kv.1.bind fun key => if position? names key = none then some (key, kv.2) else none

/-- What it means that pairs were put into their fields: every pair is in its field or is kept, in
order, and a field that had a tree before still has it. -/
structure Placed (names : List FieldNames) (fields : List (Option String × Tree))
    (trees placed : List (Option Tree)) : Prop where
  kept : ∀ (i : Nat) t, trees[i]? = some (some t) → placed[i]? = some (some t)
  pair : ∀ key t (i : Nat), (some key, t) ∈ fields → position? names key = some i →
    placed[i]? = some (some t)
  origin : ∀ (i : Nat) t, placed[i]? = some (some t) →
    trees[i]? = some (some t) ∨ ∃ key, (some key, t) ∈ fields ∧ position? names key = some i

theorem placed_of_place {fields : List (Option String × Tree)} {trees placed : List (Option Tree)}
    {others kept : List (String × Tree)}
    (h : place names fields trees others = .ok (placed, kept)) :
    Placed names fields trees placed ∧ kept = others.reverse ++ unknown names fields := by
  induction fields generalizing trees others with
  | nil =>
    cases h
    exact ⟨⟨fun _ _ here => here, fun _ _ _ none => absurd none List.not_mem_nil,
      fun _ _ here => .inl here⟩, by simp [unknown]⟩
  | cons kv rest ih =>
    obtain ⟨name, value⟩ := kv
    cases name with
    | none => cases h
    | some name =>
      simp only [place] at h
      split at h
      · next nowhere =>
        obtain ⟨later, others⟩ := ih h
        refine ⟨⟨later.kept, fun key t i member position => ?_, fun i t here => ?_⟩, ?_⟩
        · rcases List.mem_cons.mp member with same | member
          · cases same
            cases nowhere.symm.trans position
          · exact later.pair key t i member position
        · exact (later.origin i t here).imp_right fun ⟨key, member, position⟩ =>
            ⟨key, List.mem_cons_of_mem _ member, position⟩
        · simp [others, unknown, nowhere]
      · next i known =>
        split at h
        · next free =>
          obtain ⟨later, others⟩ := ih h
          have inside : i < trees.length := (List.getElem?_eq_some_iff.mp free).1
          have set : (trees.set i (some value))[i]? = some (some value) := by simp [inside]
          refine ⟨⟨fun j t here => later.kept j t ?_, fun key t j member position => ?_,
            fun j t here => ?_⟩, by simp [others, unknown, known]⟩
          · -- The field was free, so it is not the one that has a tree.
            have other : i ≠ j := by
              rintro rfl
              cases free.symm.trans here
            rw [List.getElem?_set_ne other, here]
          · rcases List.mem_cons.mp member with same | member
            · cases same
              cases known.symm.trans position
              exact later.kept i _ set
            · exact later.pair key t j member position
          · rcases later.origin j t here with old | ⟨key, member, position⟩
            · by_cases same : i = j
              · subst same
                cases set.symm.trans old
                exact .inr ⟨name, List.mem_cons_self, known⟩
              · rw [List.getElem?_set_ne same] at old
                exact .inl old
            · exact .inr ⟨key, List.mem_cons_of_mem _ member, position⟩
        · cases h

/-- The fields of an object: the trees of its pairs, and the pairs that belong to none. -/
theorem ofObject_eq_ok {d : Nat} {fields : List (Option String × Tree)} {slots : Slots}
    (h : ofObject names d fields = .ok slots) :
    slots.depth = d ∧ slots.others = unknown names fields ∧ ∀ i t, slots.tree? i = some t ↔
      ∃ key, (some key, t) ∈ fields ∧ position? names key = some i := by
  obtain ⟨⟨trees, others⟩, placed, same⟩ := eq_ok_of_bind h
  cases same
  obtain ⟨placed, kept⟩ := placed_of_place placed
  refine ⟨rfl, by simpa using kept, fun i t => ⟨fun here => ?_, fun ⟨key, member, position⟩ => ?_⟩⟩
  · have empty : (names.map fun _ => (none : Option Tree))[i]? ≠ some (some t) := by
      rw [List.getElem?_map]
      cases names[i]? <;> nofun
    exact (placed.origin i t (Option.join_eq_some_iff.mp here)).resolve_left empty
  · simp [tree?, placed.pair key t i member position]

theorem position?_of_mem_unknown {fields : List (Option String × Tree)} {kv : String × Tree}
    (h : kv ∈ unknown names fields) :
    position? names kv.1 = none ∧ (some kv.1, kv.2) ∈ fields := by
  obtain ⟨⟨name, t⟩, member, found⟩ := List.mem_filterMap.mp h
  cases name with
  | none => cases found
  | some name =>
    by_cases nowhere : position? names name = none
    · simp only [Option.bind_some, nowhere, if_true, Option.some.injEq] at found
      cases found
      exact ⟨nowhere, member⟩
    · simp [nowhere] at found

/-- Under a key that belongs to no field, the last pair is the last of the pairs that are kept. -/
theorem lastOf?_unknown {key : String} (nowhere : position? names key = none)
    (fields : List (Option String × Tree)) :
    Tree.lastOf? ((unknown names fields).map fun kv => (some kv.1, kv.2)) key =
      Tree.lastOf? fields key := by
  induction fields with
  | nil => rfl
  | cons kv rest ih =>
    obtain ⟨name, t⟩ := kv
    cases name with
    | none =>
      rw [Tree.lastOf?_of_ne (by simp), ← ih]
      rfl
    | some name =>
      cases here : position? names name with
      | none =>
        have shape : unknown names ((some name, t) :: rest) = (name, t) :: unknown names rest := by
          simp [unknown, here]
        rw [shape]
        simp [Tree.lastOf?, ih]
      | some i =>
        have shape : unknown names ((some name, t) :: rest) = unknown names rest := by
          simp [unknown, here]
        have other : name ≠ key := by
          rintro rfl
          cases here.symm.trans nowhere
        rw [shape, ih, Tree.lastOf?_of_ne (by simpa using other)]

/-- Whether every number in the fields of a record is an integer that is read as one. -/
structure Integral (slots : Slots) : Prop where
  trees : ∀ t, some t ∈ slots.trees → t.Integral
  others : ∀ kv ∈ slots.others, kv.2.Integral

theorem integral_ofObject {d : Nat} {fields : List (Option String × Tree)} {slots : Slots}
    (integral : Tree.IntegralFields fields) (h : ofObject names d fields = .ok slots) :
    slots.Integral := by
  obtain ⟨-, others, origin⟩ := ofObject_eq_ok h
  refine ⟨fun t here => ?_, fun kv here => ?_⟩
  · obtain ⟨i, here⟩ := List.mem_iff_getElem?.mp here
    obtain ⟨key, member, -⟩ := (origin i t).mp (by simp [tree?, here])
    exact Tree.integralFields_iff.mp integral _ member
  · rw [others] at here
    exact Tree.integralFields_iff.mp integral _ (position?_of_mem_unknown here).2

theorem integral_ofTree {record : String} {d : Nat} {t : Tree} {slots : Slots}
    (integral : t.Integral) (h : ofTree record names d t = .ok slots) :
    d = slots.depth + 1 ∧ slots.Integral := by
  cases t with
  | object fields =>
    cases d with
    | zero => cases h
    | succ d => exact ⟨congrArg (· + 1) (ofObject_eq_ok h).1.symm, integral_ofObject integral h⟩
  | array items =>
    cases d with
    | zero => cases h
    | succ d =>
      simp only [ofTree] at h
      split at h
      · cases h
      · cases h
        refine ⟨rfl, fun t ht => ?_, List.forall_mem_nil _⟩
        rcases List.mem_append.mp ht with ht | ht
        · obtain ⟨item, member, same⟩ := List.mem_map.mp ht
          cases same
          exact Tree.integralItems_iff.mp integral t member
        · cases List.eq_of_mem_replicate ht
  | null | bool | number | string => cases d <;> cases h

theorem tree?_of_items {record : String} {d i : Nat} {items : List Tree} {slots : Slots} {t : Tree}
    (h : ofTree record names d (.array items) = .ok slots) (here : items[i]? = some t) :
    slots.tree? i = some t := by
  cases d with
  | zero => cases h
  | succ d =>
    simp only [ofTree] at h
    split at h
    · cases h
    · cases h
      obtain ⟨inside, same⟩ := List.getElem?_eq_some_iff.mp here
      simp [tree?, List.getElem?_append, inside, same]

theorem ofOpenTree_eq_ok {record : String} {d : Nat} {t : Tree} {slots : Slots}
    (h : ofOpenTree record names d t = .ok slots) :
    ∃ fields, t = .object fields ∧ d = slots.depth + 1 ∧
      ofObject names slots.depth fields = .ok slots := by
  cases t with
  | object fields =>
    cases d with
    | zero => cases h
    | succ d =>
      obtain rfl := (ofObject_eq_ok h).1
      exact ⟨fields, rfl, rfl, h⟩
  | null | bool | number | string | array => cases d <;> cases h

/-! ## Written records -/

/-- The pairs of the fields that have a value, each under the first of its names. -/
def pairs : List FieldNames → List (Option Json) → List (String × Json)
  | names :: more, value :: values => Json.optional (names.headD "") value ++ pairs more values
  | _, _ => []

/-- Whether the first name of every field is that of no field before it. -/
def Distinct (names : List FieldNames) : Prop :=
  names.map (fun field => position? names (field.headD "")) = (List.range names.length).map some

instance (names : List FieldNames) : Decidable (Distinct names) :=
  inferInstanceAs (Decidable (_ = _))

theorem position?_of_distinct {front back : List FieldNames} {field : FieldNames}
    (distinct : Distinct names) (split : names = front ++ field :: back) :
    position? names (field.headD "") = some front.length := by
  have here := congrArg (·[front.length]?) distinct
  have inside : front.length < names.length := by simp [split]
  simpa [inside, List.getElem?_eq_getElem, split] using here

theorem place_unknown {more : List (String × Json)}
    (nowhere : ∀ kv ∈ more, position? names kv.1 = none) (trees : List (Option Tree))
    (others : List (String × Tree)) :
    place names (Tree.ofFields more) trees others =
      .ok (trees, others.reverse ++ more.map fun kv => (kv.1, Tree.ofJson kv.2)) := by
  induction more generalizing others with
  | nil => simp [Tree.ofFields, place]
  | cons kv rest ih =>
    obtain ⟨first, later⟩ := List.forall_mem_cons.mp nowhere
    simp only [Tree.ofFields, place, first]
    rw [ih later]
    simp

/-- Each pair of a written record goes into its field, and what else is there is kept. -/
theorem place_pairs (distinct : Distinct names) (front : List FieldNames) {back : List FieldNames}
    (split : names = front ++ back) {values : List (Option Json)}
    (length : values.length = back.length) {more : List (String × Json)}
    (nowhere : ∀ kv ∈ more, position? names kv.1 = none) (placed : List (Option Tree))
    (before : placed.length = front.length) :
    place names (Tree.ofFields (pairs back values ++ more)) (placed ++ back.map fun _ => none) [] =
      .ok (placed ++ values.map (Option.map Tree.ofJson),
        more.map fun kv => (kv.1, Tree.ofJson kv.2)) := by
  induction back generalizing front placed values with
  | nil =>
    cases List.length_eq_zero_iff.mp length
    simp [pairs, place_unknown nowhere]
  | cons field back ih =>
    obtain ⟨value, values, rfl⟩ := List.exists_cons_of_length_eq_add_one length
    have next (tree : Option Tree) := ih (front ++ [field]) (by simp [split])
      (Nat.succ.inj length) (placed ++ [tree]) (by simp [before])
    cases value with
    | none => simpa [pairs, Json.optional] using next none
    | some value =>
      have here : (placed ++ (none :: back.map fun _ => none))[front.length]? = some none := by
        simp [← before]
      simp only [pairs, Json.optional, List.cons_append, List.nil_append, Tree.ofFields, place,
        position?_of_distinct distinct split, List.map_cons, here]
      simpa [← before] using next (some (Tree.ofJson value))

/-- A written record is read as its values, in their fields. -/
theorem ofTree_pairs (record : String) (distinct : Distinct names)
    {values : List (Option Json)} (length : values.length = names.length) (d : Nat) :
    ofTree record names (d + 1) (Tree.ofJson (.object (pairs names values))) =
      .ok ⟨d, false, values.map (Option.map Tree.ofJson), []⟩ := by
  have placed := place_pairs distinct [] rfl length (List.forall_mem_nil _) [] rfl
  rw [List.append_nil, List.nil_append] at placed
  have object : Tree.ofJson (.object (pairs names values)) =
      .object (Tree.ofFields (pairs names values)) := rfl
  rw [object]
  unfold ofTree ofObject
  dsimp only
  rw [placed]
  rfl

theorem ofOpenTree_pairs (record : String) (distinct : Distinct names)
    {values : List (Option Json)} (length : values.length = names.length) {more : Fields}
    (nowhere : ∀ kv ∈ more, position? names kv.1 = none) (d : Nat) :
    ofOpenTree record names (d + 1) (Tree.ofJson (.object (pairs names values ++ more))) =
      .ok ⟨d, false, values.map (Option.map Tree.ofJson),
        more.map fun kv => (kv.1, Tree.ofJson kv.2)⟩ := by
  have placed := place_pairs distinct [] rfl length nowhere [] rfl
  rw [List.nil_append] at placed
  have object : Tree.ofJson (.object (pairs names values ++ more)) =
      .object (Tree.ofFields (pairs names values ++ more)) := rfl
  rw [object]
  unfold ofOpenTree ofObject
  dsimp only
  rw [placed]
  rfl

end Slots

end FleetControl.Json
