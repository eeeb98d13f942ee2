import FleetControl.Assistant.Document
import FleetControl.Proofs.Assistant.Entries
import FleetControl.Proofs.Files.Saving

/-!
# The file of an assistant as a map

A `Registry` is what such a file says, without the order and the form in which it says it: the
entries of the servers by name, and the values under all other keys. What is proved:

1. `Json.Durable.read_pretty`: a durable value, one with sorted objects, integers for numbers and not
   nested too deeply, is written and read back as it is.
2. `Document.Tells.load_save`: so a document that was saved is loaded again, with the registry that it
   had in memory.
3. `Document.Tells.insert` and `Document.Tells.erase`: putting an entry into the table of a document
   and taking one out change the registry at that name and nowhere else. Whether the table was
   absent, null or empty before makes no difference.
-/

namespace FleetControl

/-! ## Values that last -/

namespace Json

/-- Whether a value comes through writing and reading as it is, where `d` levels may be nested. -/
structure Durable (d : Nat) (v : Json) : Prop where
  plain : v.Plain
  sorted : v.Sorted
  deep : v.depth ≤ d

theorem durable_object_iff {fields : Fields} {d : Nat} :
    (object fields).Durable (d + 1) ↔ fields.Sorted ∧ ∀ kv ∈ fields, kv.2.Durable d := by
  constructor
  · intro ⟨plain, sorted, deep⟩
    refine ⟨sorted.1, fun kv hk => ⟨?_, ?_, ?_⟩⟩
    · exact plainFields_iff.mp plain kv hk
    · exact sortedFields_iff.mp sorted.2 kv hk
    · exact depth_object_le_iff.mp deep kv hk
  · intro ⟨sorted, all⟩
    refine ⟨?_, ⟨sorted, ?_⟩, ?_⟩
    · exact plainFields_iff.mpr fun kv hk => (all kv hk).plain
    · exact sortedFields_iff.mpr fun kv hk => (all kv hk).sorted
    · exact depth_object_le_iff.mpr fun kv hk => (all kv hk).deep

namespace Durable

variable {d e : Nat} {v : Json} {fields : Fields}

theorem mono (durable : v.Durable d) (h : d ≤ e) : v.Durable e :=
  { durable with deep := Nat.le_trans durable.deep h }

theorem insert (durable : (object fields).Durable (d + 1)) (key : String) (inner : v.Durable d) :
    (object (fields.insert key v)).Durable (d + 1) := by
  obtain ⟨sorted, all⟩ := durable_object_iff.mp durable
  refine durable_object_iff.mpr ⟨sorted.insert key v, fun kv hk => ?_⟩
  rcases Dictionary.mem_insert hk with rfl | hk
  · exact inner
  · exact all kv hk

theorem erase (durable : (object fields).Durable (d + 1)) (key : String) :
    (object (fields.erase key)).Durable (d + 1) := by
  obtain ⟨sorted, all⟩ := durable_object_iff.mp durable
  exact durable_object_iff.mpr ⟨sorted.erase key, fun kv hk => all kv (Dictionary.mem_erase hk)⟩

/-- A durable value is written and read back as it is. -/
theorem read_pretty (durable : v.Durable maxDepth) :
    Json.read Decoder.anyValue (v.pretty ++ "\n") = .ok v := by
  have tree := Tree.toJson?_ofJson v maxDepth durable.sorted durable.deep
  simp [Json.read, Tree.parse_pretty durable.plain, Decoder.anyValue, tree]

end Durable

theorem isBlankText_object (fields : Fields) :
    Text.isBlankText ((object fields).pretty ++ "\n") = false := by
  have brace : ∃ rest, prettyChars 0 (object fields) = '{' :: rest := by
    cases fields with
    | nil => exact ⟨_, rfl⟩
    | cons kv rest => exact ⟨_, rfl⟩
  obtain ⟨rest, shape⟩ := brace
  simp [pretty, shape, Text.isBlankText, Text.isBlank]

end Json

theorem Server.durable_toJson (command : String) (args : List String) {env : Dictionary String}
    (sorted : env.Sorted) : (Server.plain command args env).toJson.Durable 2 :=
  ⟨plain_toJson command args env, sorted_toJson command args env sorted,
    depth_toJson command args env⟩

/-! ## Registries -/

/-- What the file of an assistant says: the entries of the servers by name, and the values under all
keys but that of the table. -/
@[ext]
structure Registry where
  entries : String → Option Json
  others : String → Option Json

/-- The registry with another entry, or none, for one name. -/
def Registry.set (registry : Registry) (name : String) (entry : Option Json) : Registry :=
  { registry with entries := Function.update registry.entries name entry }

namespace Document

/-- What a document says, if it has a table or can have one. -/
def said? (document : Document) : Option Registry :=
  document.table.toOption.map fun table => ⟨table.get?, (document.fields.erase serversKey).get?⟩

/-- Whether a document for a path says what a registry says, and still does once it was saved. -/
structure Tells (document : Document) (path : String) (registry : Registry) : Prop where
  path : document.path = path
  durable : (Json.object document.fields).Durable Json.maxDepth
  said : document.said? = some registry

end Document

def Files.said? (files : Files) (path : String) : Option Registry :=
  (Document.load files path).toOption.bind Document.said?

/-! ## Loading -/

namespace Document

variable {document : Document} {path : String} {files : Files} {registry : Registry}
  {table : Json.Fields}

theorem load_eq_ok (loaded : load files path = .ok document) :
    document.path = path ∧ (Json.object document.fields).Sorted ∧
      (Json.object document.fields).depth ≤ Json.maxDepth := by
  have empty : (Json.object []).Sorted ∧ (Json.object []).depth ≤ Json.maxDepth :=
    ⟨⟨.nil, trivial⟩, by decide⟩
  unfold load at loaded
  split at loaded
  · cases loaded
  · cases loaded
    exact ⟨rfl, empty⟩
  next content _ =>
  unfold parse at loaded
  split at loaded
  · cases loaded
    exact ⟨rfl, empty⟩
  · cases read : Json.read Json.Decoder.anyValue content with
    | error fault =>
      rw [read] at loaded
      cases loaded
    | ok v =>
      rw [read] at loaded
      cases v with
      | object fields =>
        cases loaded
        refine ⟨rfl, ?_⟩
        unfold Json.read at read
        split at read
        · cases read
        · next tree _ =>
          unfold Json.Decoder.anyValue at read
          split at read
          · next found =>
            cases read
            exact Json.Tree.toJson?_eq_some tree _ _ found
          · cases read
      | null | bool | int | float | string | array => cases loaded

/-- A file cannot be read if its text is that of a tree without a value, as one that nests too deeply
is. -/
theorem load_of_no_value {content : String} {tree : Json.Tree}
    (text : files.readText (.ofString path) = .ok (some content))
    (visible : Text.isBlankText content = false) (parsed : Json.Tree.parse content = .ok tree)
    (none : tree.toJson? Json.maxDepth = none) : load files path = .error (.json .noValue) := by
  simp [load, text, parse, visible, Json.read, parsed, Json.Decoder.anyValue, none, Except.map]

theorem tells_of_load (loaded : load files path = .ok document)
    (said : document.said? = some registry) (plain : (Json.object document.fields).Plain) :
    document.Tells path registry := by
  obtain ⟨same, sorted, deep⟩ := load_eq_ok loaded
  exact ⟨same, ⟨plain, sorted, deep⟩, said⟩

/-! ## The table of a document -/

theorem table_eq_ok (h : document.table = .ok table) :
    document.fields.get? serversKey = some (.object table) ∨
      table = [] ∧ (document.fields.get? serversKey = none ∨
        document.fields.get? serversKey = some .null) := by
  unfold Document.table at h
  split at h
  · next absent =>
    cases h
    exact .inr ⟨rfl, .inl absent⟩
  · next null =>
    cases h
    exact .inr ⟨rfl, .inr null⟩
  · next found =>
    cases h
    exact .inl found
  · cases h

theorem said?_of_table (h : document.table = .ok table) :
    document.said? = some ⟨table.get?, (document.fields.erase serversKey).get?⟩ := by
  simp [said?, h, Except.toOption]

theorem table_withTable (document : Document) (table : Json.Fields) :
    (document.withTable table).table = .ok table := by
  simp [Document.table, withTable, Dictionary.get?_insert]

theorem said?_withTable (document : Document) (table : Json.Fields) :
    (document.withTable table).said? =
      some ⟨table.get?, (document.fields.erase serversKey).get?⟩ := by
  rw [said?_of_table (table_withTable document table)]
  congr 2
  funext key
  by_cases same : serversKey = key <;>
    simp [withTable, Dictionary.get?_erase, Dictionary.get?_insert, same]

theorem durable_table (durable : (Json.object document.fields).Durable Json.maxDepth)
    (h : document.table = .ok table) : (Json.object table).Durable 126 := by
  rcases table_eq_ok h with found | ⟨rfl, -⟩
  · exact (Json.durable_object_iff.mp durable).2 _ (Dictionary.mem_of_get? found)
  · exact ⟨trivial, ⟨.nil, trivial⟩, by decide⟩

theorem entries_of_load (loaded : load files path = .ok document)
    (h : document.table = .ok table) : ∀ kv ∈ table, kv.2.Sorted ∧ kv.2.depth ≤ 125 := by
  obtain ⟨-, sorted, deep⟩ := load_eq_ok loaded
  rcases table_eq_ok h with found | ⟨rfl, -⟩
  · have member := Dictionary.mem_of_get? found
    have inner := Json.sortedFields_iff.mp sorted.2 _ member
    have level := Json.depth_object_le_iff.mp deep _ member
    intro kv hk
    exact ⟨Json.sortedFields_iff.mp inner.2 kv hk, Json.depth_object_le_iff.mp level kv hk⟩
  · exact List.forall_mem_nil _

namespace Tells

/-- A document that says something has a table, whose entries are those of the registry. -/
theorem exists_table (tells : document.Tells path registry) :
    ∃ table, document.table = .ok table ∧ (Json.object table).Durable 126 ∧
      registry.entries = table.get? := by
  cases h : document.table with
  | error e =>
    have said := tells.said
    simp [said?, h, Except.toOption] at said
  | ok table =>
    have said := tells.said
    rw [said?_of_table h] at said
    cases said
    exact ⟨table, rfl, durable_table tells.durable h, rfl⟩

/-- A document keeps what it says if its table is replaced by one with the same entries but at one
name. -/
theorem withTable (tells : document.Tells path registry) {changed : Json.Fields}
    (durable : (Json.object changed).Durable 126) (name : String) (entry : Option Json)
    (entries : changed.get? = Function.update registry.entries name entry) :
    (document.withTable changed).Tells path (registry.set name entry) where
  path := tells.path
  durable := tells.durable.insert serversKey durable
  said := by
    obtain ⟨table, found, -, -⟩ := tells.exists_table
    have said := tells.said
    rw [said?_of_table found] at said
    cases said
    rw [said?_withTable, Registry.set, entries]

theorem insert (tells : document.Tells path registry) (found : document.table = .ok table)
    (name : String) {entry : Json} (durable : entry.Durable 125) :
    (document.withTable (table.insert name entry)).Tells path (registry.set name (some entry)) := by
  obtain ⟨_, same, inner, entries⟩ := tells.exists_table
  cases found.symm.trans same
  refine tells.withTable (inner.insert name durable) name (some entry) ?_
  funext key
  rw [Dictionary.get?_insert, entries, Function.update_apply]
  simp only [eq_comm]

theorem erase (tells : document.Tells path registry) (found : document.table = .ok table)
    (name : String) :
    (document.withTable (table.erase name)).Tells path (registry.set name none) := by
  obtain ⟨_, same, inner, entries⟩ := tells.exists_table
  cases found.symm.trans same
  refine tells.withTable (inner.erase name) name none ?_
  funext key
  rw [Dictionary.get?_erase, entries, Function.update_apply]
  simp only [eq_comm]

/-! ## Saving -/

/-- What was saved is loaded again. -/
theorem load_save (tells : document.Tells path registry) {after : Files}
    (saved : document.save files = .ok after) : load after path = .ok document := by
  have same := tells.path
  subst same
  have written := Files.readText_save saved
  have text : Text.isBlankText document.render = false := Json.isBlankText_object document.fields
  have read := tells.durable.read_pretty
  rw [load, written]
  simp only [parse, text]
  simp only [render, read]
  rfl

end Tells

end Document

end FleetControl
