import FleetControl.Proofs.Json.Fields

/-!
# Records that are written and read again

What is proved:

1. `Stable` says of a reader and a writer that what was read is read back from what is written. It
   holds of small numbers and free-form objects, and passes from the items to a list and to the fields
   of a record, those that may be absent and those that may be null (`Stable.list`,
   `Stable.defaulted`, `Stable.omitted`).
2. `Slots.Holds`: the fields of a written record are read as the values that they were written from.
3. `Stable.roundTrips`: then the whole text of a record is read back, and written again as the same
   text.

A field may have to nest some levels deep, `least` in `Stable`: the empty stream of an absent field
is written out, and is then a level of its own.
-/

namespace FleetControl.Json

variable {α : Type}

/-! ## Reading what was written -/

/-- Whether a value is read back from what is written of it, where `d` levels are allowed. -/
structure Rereads (decoder : Decoder α) (write : α → Json) (d : Nat) (a : α) : Prop where
  plain : (write a).Plain
  again : decoder d (Tree.ofJson (write a)) = .ok a

/-- Whether everything that is read from a text of integers, where `least` levels are allowed or
more, is read back from what is written of it. -/
def Stable (decoder : Decoder α) (write : α → Json) (least : Nat) : Prop :=
  ∀ ⦃d t a⦄, least ≤ d → t.Integral → decoder d t = .ok a → Rereads decoder write d a

variable {decoder : Decoder α} {write : α → Json} {least : Nat}

/-! ### Texts, numbers and free-form objects -/

theorem Rereads.string (s : String) (d : Nat) : Rereads Decoder.string Json.string d s :=
  ⟨trivial, rfl⟩

theorem Rereads.nat32 {n : Nat} (small : n < UInt32.size) (d : Nat) :
    Rereads Decoder.nat32 Json.nat d n := by
  have range : InRange n := by
    simp only [InRange, UInt32.size] at *
    omega
  refine ⟨range, ?_⟩
  have small : (n : Int) < UInt32.size := Int.ofNat_lt.mpr small
  simp only [Json.nat, Tree.ofJson, Decoder.nat32, small, Int.natCast_nonneg, decide_true,
    Bool.and_self, if_true, Int.toNat_natCast]

theorem Stable.nat32 : Stable Decoder.nat32 Json.nat 0 := by
  intro d t n _ _ h
  unfold Decoder.nat32 at h
  split at h
  · next m =>
    split at h
    · next range =>
      cases h
      refine .nat32 ?_ d
      simp only [Bool.and_eq_true, decide_eq_true_eq] at range
      omega
    · cases h
  · cases h
  · cases h

theorem Tree.fieldsToJson?_again {d : Nat} {fields : List (Option String × Tree)} {out : Fields}
    (integral : IntegralFields fields) (h : fieldsToJson? d fields [] = some out) :
    PlainFields out ∧ fieldsToJson? d (ofFields out) [] = some out := by
  obtain ⟨sorted, all⟩ := fieldsToJson?_eq_some fields d [] out h .nil (List.forall_mem_nil _)
  have read : toJson? (d + 1) (.object fields) = some (.object out) := by rw [toJson?, h]; rfl
  refine ⟨plain_toJson? (.object fields) (d + 1) (.object out) integral read, ?_⟩
  exact fieldsToJson?_ofFields out d [] sorted (sortedFields_iff.mpr fun kv hk => (all kv hk).1)
    (fieldsDepth_le_iff.mpr fun kv hk => (all kv hk).2) (List.forall_mem_nil _)

theorem Stable.fieldMap : Stable Decoder.fieldMap Json.object 0 := by
  intro d t out _ integral h
  cases t with
  | object fields =>
    cases d with
    | zero => cases h
    | succ d =>
      rw [fieldMap_object] at h
      split at h
      · next read =>
        cases h
        obtain ⟨plain, again⟩ := Tree.fieldsToJson?_again integral read
        exact ⟨plain, by rw [Tree.ofJson, fieldMap_object, again]⟩
      · cases h
  | null | bool | number | string | array => cases d <;> cases h

theorem Slots.get?_rest {slots : Slots} {out : Fields} (h : slots.rest = .ok out) (key : String) :
    out.get? key =
      (Tree.lastOf? (slots.others.map fun kv => (some kv.1, kv.2)) key).bind
        (Tree.toJson? slots.depth) := by
  rw [rest_eq] at h
  split at h
  · next read =>
    cases h
    rw [Tree.get?_fieldsToJson? read]
    split
    · next here => rw [here]; rfl
    · next here => rw [here]; rfl
  · cases h

theorem Slots.mem_others_of_rest {slots : Slots} {out : Fields} (h : slots.rest = .ok out)
    {kv : String × Json} (member : kv ∈ out) : ∃ t, (kv.1, t) ∈ slots.others := by
  have found := Slots.get?_rest h kv.1
  rw [rest_eq] at h
  split at h
  · next read =>
    cases h
    obtain ⟨sorted, -⟩ := Tree.fieldsToJson?_eq_some _ _ [] _ read .nil (List.forall_mem_nil _)
    rw [sorted.mem_iff.mp member] at found
    obtain ⟨t, last, -⟩ := Option.bind_eq_some_iff.mp found.symm
    obtain ⟨⟨name, u⟩, there, same⟩ := List.mem_map.mp (Tree.mem_of_lastOf? last)
    simp only [Prod.mk.injEq, Option.some.injEq] at same
    exact ⟨u, same.1 ▸ there⟩
  · cases h

theorem Slots.rest_again {slots : Slots} {out : Fields} (integral : slots.Integral)
    (h : slots.rest = .ok out) :
    PlainFields out ∧ ∀ again : Slots, again.depth = slots.depth →
      again.others = (out.map fun kv => (kv.1, Tree.ofJson kv.2)) → again.rest = .ok out := by
  rw [rest_eq] at h
  split at h
  · next read =>
    cases h
    have pairs : Tree.IntegralFields (slots.others.map fun kv => (some kv.1, kv.2)) := by
      refine Tree.integralFields_iff.mpr fun kv member => ?_
      obtain ⟨other, kept, rfl⟩ := List.mem_map.mp member
      exact integral.others other kept
    obtain ⟨plain, again⟩ := Tree.fieldsToJson?_again pairs read
    refine ⟨plain, fun written level others => ?_⟩
    rw [rest_of_others others, level, again]
  · cases h

/-! ### Lists, values that may be null, and fields -/

theorem Rereads.list {d : Nat} {as : List α} (all : ∀ a ∈ as, Rereads decoder write d a) :
    Rereads (Decoder.list decoder) (fun as => .array (as.map write)) (d + 1) as := by
  induction as with
  | nil => exact ⟨trivial, rfl⟩
  | cons a rest ih =>
    obtain ⟨first, others⟩ := List.forall_mem_cons.mp all
    obtain ⟨plain, again⟩ := ih others
    refine ⟨⟨first.plain, plain⟩, ?_⟩
    simp only [Tree.ofJson, Decoder.list] at again
    simp [Tree.ofJson, Tree.ofItems, Decoder.list, first.again, again, bind, Except.bind, pure,
      Except.pure]

theorem mem_of_mapM {ε β : Type} {f : β → Except ε α} {items : List β} {as : List α}
    (h : items.mapM f = .ok as) {a : α} (member : a ∈ as) : ∃ item ∈ items, f item = .ok a := by
  induction items generalizing as with
  | nil =>
    cases h
    cases member
  | cons item rest ih =>
    rw [List.mapM_cons] at h
    obtain ⟨b, first, h⟩ := eq_ok_of_bind h
    obtain ⟨bs, later, h⟩ := eq_ok_of_bind h
    cases h
    rcases List.mem_cons.mp member with rfl | member
    · exact ⟨item, List.mem_cons_self, first⟩
    · obtain ⟨item, there, read⟩ := ih later member
      exact ⟨item, List.mem_cons_of_mem _ there, read⟩

theorem Stable.list (stable : Stable decoder write least) :
    Stable (Decoder.list decoder) (fun as => .array (as.map write)) (least + 1) := by
  intro d t as deep integral h
  cases t with
  | array items =>
    cases d with
    | zero => cases h
    | succ d =>
      refine .list fun a member => ?_
      obtain ⟨item, there, read⟩ := mem_of_mapM h member
      exact stable (Nat.le_of_succ_le_succ deep) (Tree.integralItems_iff.mp integral item there) read
  | null | bool | number | string | object => cases d <;> cases h

theorem Rereads.nullable {d : Nat} {value : Option α}
    (rereads : ∀ a ∈ value, Rereads decoder write d a ∧ write a ≠ .null) :
    Rereads (Decoder.nullable decoder) (fun value => (value.map write).getD .null) d value := by
  cases value with
  | none => exact ⟨trivial, rfl⟩
  | some a =>
    obtain ⟨⟨plain, again⟩, present⟩ := rereads a rfl
    refine ⟨plain, ?_⟩
    have tree : Tree.ofJson (write a) ≠ .null := by
      cases shape : write a with
      | null => exact absurd shape present
      | bool | int | float | string | array | object => simp [Tree.ofJson]
    simp only [Option.map_some, Option.getD_some]
    unfold Decoder.nullable
    split
    · next null => exact absurd null tree
    · rw [again]
      rfl

/-- The value of a field that may be absent is read back, if what stands for an absent one is. -/
theorem Stable.defaulted (stable : Stable decoder write least) {slots : Slots} {i : Nat}
    {default a : α} (deep : least ≤ slots.depth) (integral : slots.Integral)
    (base : Rereads decoder write slots.depth default)
    (h : slots.defaulted i default decoder = .ok a) : Rereads decoder write slots.depth a := by
  unfold Slots.defaulted at h
  split at h
  · cases h
    exact base
  · next t here =>
    have placed : slots.trees[i]? = some (some t) := Option.join_eq_some_iff.mp here
    exact stable deep (integral.trees t (List.mem_of_getElem? placed)) h

theorem Slots.tree?_of_required_string {slots : Slots} {i : Nat} {name s : String}
    (h : slots.required i name Decoder.string = .ok s) : slots.tree? i = some (.string (some s)) := by
  unfold Slots.required at h
  split at h
  · cases h
  · next t here =>
    unfold Decoder.string at h
    split at h
    · cases h
      exact here
    · cases h
    · cases h

theorem eq_ok_of_nullable {d : Nat} {t : Tree} {a : α}
    (h : Decoder.nullable decoder d t = .ok (some a)) : decoder d t = .ok a := by
  unfold Decoder.nullable at h
  split at h
  · cases h
  · next notNull =>
    cases read : decoder d t with
    | error fault => rw [read] at h; cases h
    | ok b =>
      rw [read] at h
      cases h
      rfl

theorem Stable.omitted (stable : Stable decoder write least) {slots : Slots} {i : Nat}
    {value : Option α} (deep : least ≤ slots.depth) (integral : slots.Integral)
    (h : slots.defaulted i none (Decoder.nullable decoder) = .ok value) :
    ∀ a ∈ value, Rereads decoder write slots.depth a := by
  rintro a rfl
  cases here : slots.tree? i with
  | none =>
    simp only [Slots.defaulted, here] at h
    cases h
  | some t =>
    simp only [Slots.defaulted, here] at h
    have placed : slots.trees[i]? = some (some t) := Option.join_eq_some_iff.mp here
    exact stable deep (integral.trees t (List.mem_of_getElem? placed)) (eq_ok_of_nullable h)

/-! ### Written records -/

/-- Whether a field that is written, if it is, has no other numbers than integers. -/
def PlainValue (value : Option Json) : Prop :=
  ∀ v ∈ value, v.Plain

@[simp] theorem plainValue_some {v : Json} : PlainValue (some v) ↔ v.Plain := by
  simp [PlainValue]

@[simp] theorem plainValue_text (text : Option String) : PlainValue (text.map .string) := by
  cases text <;> simp [PlainValue, Plain]

@[simp] theorem plain_string (s : String) : Plain (.string s) :=
  trivial

namespace Slots

variable {slots : Slots} {d : Nat} {values : List (Option Json)}

theorem plain_pairs (plain : ∀ value ∈ values, PlainValue value) {more : List (String × Json)}
    (others : PlainFields more) (names : List FieldNames) :
    PlainFields (pairs names values ++ more) := by
  induction names generalizing values with
  | nil => simpa [pairs] using others
  | cons field names ih =>
    cases values with
    | nil => simpa [pairs] using others
    | cons value values =>
      obtain ⟨first, later⟩ := List.forall_mem_cons.mp plain
      cases value with
      | none => exact ih later
      | some v => exact ⟨plainValue_some.mp first, ih later⟩

/-- Whether the fields of a record are the trees of values. -/
structure Holds (slots : Slots) (d : Nat) (values : List (Option Json)) : Prop where
  depth : slots.depth = d
  tree : ∀ i, slots.tree? i = values[i]?.join.map Tree.ofJson

theorem holds_values (d : Nat) (values : List (Option Json)) (others : List (String × Tree)) :
    Holds ⟨d, false, values.map (Option.map Tree.ofJson), others⟩ d values := by
  refine ⟨rfl, fun i => ?_⟩
  simp only [tree?, List.getElem?_map]
  rcases values[i]? with _ | _ | v <;> rfl

theorem ofTree_written (record : String) (names : List FieldNames) (distinct : Distinct names)
    (values : List (Option Json)) (length : values.length = names.length) (d : Nat) :
    ∃ slots, ofTree record names (d + 1) (Tree.ofJson (.object (pairs names values))) = .ok slots ∧
      slots.Holds d values :=
  ⟨_, ofTree_pairs record distinct length d, holds_values d values []⟩

theorem ofOpenTree_written (record : String) (names : List FieldNames) (distinct : Distinct names)
    (values : List (Option Json)) (length : values.length = names.length) {more : Fields}
    (nowhere : ∀ kv ∈ more, position? names kv.1 = none) (d : Nat) :
    ∃ slots, ofOpenTree record names (d + 1) (Tree.ofJson (.object (pairs names values ++ more))) =
        .ok slots ∧ slots.Holds d values ∧
      slots.others = more.map fun kv => (kv.1, Tree.ofJson kv.2) :=
  ⟨_, ofOpenTree_pairs record distinct length nowhere d, holds_values d values _, rfl⟩

theorem Holds.required (holds : slots.Holds d values) {a : α} (rereads : Rereads decoder write d a)
    {i : Nat} (here : values[i]?.join = some (write a)) (name : String) :
    slots.required i name decoder = .ok a := by
  simp [Slots.required, holds.tree, here, holds.depth, rereads.again]

theorem Holds.defaulted (holds : slots.Holds d values) {a : α} (rereads : Rereads decoder write d a)
    {i : Nat} (here : values[i]?.join = some (write a)) (default : α) :
    slots.defaulted i default decoder = .ok a := by
  simp [Slots.defaulted, holds.tree, here, holds.depth, rereads.again]

theorem Holds.omitted (holds : slots.Holds d values) {value : Option α}
    (rereads : ∀ a ∈ value, Rereads decoder write d a ∧ write a ≠ .null) {i : Nat}
    (here : values[i]?.join = value.map write) :
    slots.defaulted i none (Decoder.nullable decoder) = .ok value := by
  cases value with
  | none => simp [Slots.defaulted, holds.tree, here]
  | some a =>
    exact holds.defaulted (Rereads.nullable rereads) here none

theorem Holds.text (holds : slots.Holds d values) {value : Option String} {i : Nat}
    (here : values[i]?.join = value.map Json.string) :
    slots.defaulted i none (Decoder.nullable Decoder.string) = .ok value :=
  holds.omitted (fun s _ => ⟨.string s d, Json.noConfusion⟩) here

end Slots

/-! ### Whole texts -/

/-- Whether every record that is read from a text of integers is read back from what is written of
it, on one line or on many, and is then written as the same text. -/
def RoundTrips (decoder : Decoder α) (write : α → Json) : Prop :=
  ∀ (s : String) (t : Tree) (a : α), Tree.parse s = .ok t → t.Integral → read decoder s = .ok a →
    ∀ text ∈ [Json.compact, Json.pretty],
      read decoder (text (write a)) = .ok a ∧
        (read decoder (text (write a))).map (fun b => text (write b)) = .ok (text (write a))

theorem Stable.roundTrips (stable : Stable decoder write least) (deep : least ≤ maxDepth) :
    RoundTrips decoder write := by
  intro s t a parsed integral h text member
  simp only [read, parsed] at h
  obtain ⟨plain, again⟩ := stable deep integral h
  have parse : Tree.parse (text (write a)) = .ok (Tree.ofJson (write a)) := by
    simp only [List.mem_cons, List.not_mem_nil, or_false] at member
    rcases member with rfl | rfl
    · exact Tree.parse_compact plain
    · have blanks : IsBlank [] := List.forall_mem_nil _
      apply Layout.pretty.parse_chars plain.legible blanks
      simp [Json.pretty, prettyChars_eq]
  have back : read decoder (text (write a)) = .ok a := by simp only [read, parse, again]
  exact ⟨back, by rw [back]; rfl⟩

end FleetControl.Json
