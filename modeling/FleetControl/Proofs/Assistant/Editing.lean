import FleetControl.Proofs.Assistant.Registry

/-!
# What a failed edit leaves of a document

What is proved:

1. `Document.withTable_eq_self_iff`: putting a table into a document changes nothing exactly if the
   document has that table already. No table, and null in place of one, are not the empty table.
2. `Document.add_failed` and `Document.remove_failed`: all that the two edits can do to a document
   when they fail.
3. `Document.edit_failed`: a failed addition leaves the document alone. A failed removal does so
   exactly if the document has something else than null in the place of the table, and no entry with
   the name if that is a table.

Adding checks everything before it changes anything, and removing does not: it makes a table where
there is none before it looks the name up, and takes an entry out before it reads the server in it.
`Document.remove_leaves` shows both.
-/

namespace FleetControl

theorem Dictionary.Sorted.insert_eq_self_iff {α : Type} {pairs : Dictionary α}
    (sorted : pairs.Sorted) {key : String} {value : α} :
    pairs.insert key value = pairs ↔ pairs.get? key = some value := by
  constructor
  · intro same
    have found := get?_insert pairs key key value
    rwa [same, if_pos rfl] at found
  · intro found
    induction pairs with
    | nil => cases found
    | cons head rest ih =>
      obtain ⟨k, v⟩ := head
      obtain ⟨first, sorted⟩ := List.pairwise_cons.mp sorted
      by_cases here : k = key
      · subst here
        simp only [get?, if_true, Option.some.injEq] at found
        subst found
        rw [Dictionary.insert, if_neg (String.lt_irrefl k), if_pos rfl]
      · simp only [get?, here, if_false] at found
        have later : k < key := first _ (mem_of_get? found)
        have notBefore : ¬ key < k := String.lt_asymm later
        simp [Dictionary.insert, notBefore, here, ih sorted found]

namespace Document

variable {document : Document} {table : Json.Fields} {name : String}

/-! ## Putting a table back -/

theorem withTable_eq_self_iff (sorted : document.fields.Sorted) :
    document.withTable table = document ↔
      document.fields.get? serversKey = some (.object table) := by
  rw [← sorted.insert_eq_self_iff]
  constructor
  · exact congrArg fields
  · intro same
    unfold withTable
    rw [same]

theorem get?_of_entry (h : document.table = .ok table) {entry : Json}
    (here : table.get? name = some entry) :
    document.fields.get? serversKey = some (.object table) := by
  rcases table_eq_ok h with found | ⟨rfl, -⟩
  · exact found
  · cases here

/-! ## Failures -/

/-- A failed addition leaves the document alone, or puts the table back that it has. -/
theorem add_failed {server : Server} {force : Bool} {e : Error}
    (failed : (document.add name server force).2 = .error e) :
    (document.add name server force).1 = document ∨
      ∃ table, document.fields.get? serversKey = some (.object table) ∧
        (document.add name server force).1 = document.withTable table := by
  unfold add at failed ⊢
  by_cases blank : Text.isBlankText name = true
  · rw [if_pos blank]
    exact .inl rfl
  rw [if_neg blank] at failed ⊢
  cases found : document.table with
  | error => exact .inl rfl
  | ok table =>
    simp only [found] at failed ⊢
    by_cases taken : (table.contains name && !force) = true
    · rw [if_pos taken]
      have there : table.contains name = true := (Bool.and_eq_true_iff.mp taken).1
      obtain ⟨entry, here⟩ := Option.isSome_iff_exists.mp there
      exact .inr ⟨table, get?_of_entry found here, rfl⟩
    · rw [if_neg taken] at failed
      cases failed

/-- A failed removal found no table and none to make, or no entry, or one that is no server. In the
last two cases a table was put into the document, in the last without the entry. -/
theorem remove_failed {e : Error} (failed : (document.remove name).2 = .error e) :
    ((∃ fault, document.table = .error fault) ∧ (document.remove name).1 = document) ∨
      ∃ table, document.table = .ok table ∧
        (table.get? name = none ∧ (document.remove name).1 = document.withTable table ∨
          (∃ entry fault, table.get? name = some entry ∧
              Json.ofValue Server.decoder entry = .error fault) ∧
            (document.remove name).1 = document.withTable (table.erase name)) := by
  unfold remove at failed ⊢
  cases found : document.table with
  | error fault => exact .inl ⟨⟨fault, rfl⟩, rfl⟩
  | ok table =>
    refine .inr ⟨table, rfl, ?_⟩
    simp only [found] at failed ⊢
    cases here : table.get? name with
    | none => exact .inl ⟨rfl, rfl⟩
    | some entry =>
      simp only [here] at failed
      cases read : Json.ofValue Server.decoder entry with
      | ok server =>
        rw [read] at failed
        cases failed
      | error fault => exact .inr ⟨⟨entry, fault, rfl, read⟩, rfl⟩

/-- A failed addition leaves the document alone. A failed removal does so exactly if there is neither
no table nor null in place of one, and no entry under the name in a table. -/
theorem edit_failed (sorted : document.fields.Sorted) (name : String) :
    (∀ server force e, (document.add name server force).2 = .error e →
      (document.add name server force).1 = document) ∧
    ∀ e, (document.remove name).2 = .error e →
      ((document.remove name).1 = document ↔
        document.fields.get? serversKey ≠ none ∧ document.fields.get? serversKey ≠ some .null ∧
          ∀ table : Json.Fields, document.fields.get? serversKey = some (.object table) →
            table.get? name = none) := by
  refine ⟨fun server force e failed => ?_, fun e failed => ?_⟩
  · rcases add_failed failed with same | ⟨table, found, same⟩
    · exact same
    · rw [same, withTable_eq_self_iff sorted]
      exact found
  rcases remove_failed failed with
    ⟨⟨fault, stuck⟩, same⟩ | ⟨table, found, ⟨absent, same⟩ | ⟨⟨entry, fault, here, -⟩, same⟩⟩
  · refine iff_of_true same ⟨?_, ?_, ?_⟩
    · intro none
      simp [Document.table, none] at stuck
    · intro null
      simp [Document.table, null] at stuck
    · intro table found
      simp [Document.table, found] at stuck
  · rw [same, withTable_eq_self_iff sorted]
    constructor
    · intro there
      rw [there]
      refine ⟨by simp, by simp, fun other same => ?_⟩
      cases same
      exact absent
    · rintro ⟨some, visible, -⟩
      rcases table_eq_ok found with there | ⟨-, none | null⟩
      · exact there
      · exact absurd none some
      · exact absurd null visible
  · rw [same, withTable_eq_self_iff sorted, get?_of_entry found here]
    refine iff_of_false ?_ ?_
    · -- the table has the entry, and it has not without it
      intro unchanged
      have same : table = table.erase name := Json.object.inj (Option.some.inj unchanged)
      rw [same, Dictionary.get?_erase, if_pos rfl] at here
      cases here
    · rintro ⟨-, -, absent⟩
      rw [absent table rfl] at here
      cases here

/-- A name that is taken cannot be added, and one that is free cannot be removed, beside an entry that
is no server. -/
theorem edit_failed_taken :
    let document : Document := ⟨"m", [("mcpServers", .object [("a", .int 0)]), ("other", .null)]⟩
    let taken := document.add "a" (Server.ofCommand "x") false
    let absent := document.remove "b"
    document.fields.Sorted ∧
      taken.2 = .error (.invalidArgument (.serverExists "a")) ∧ taken.1 = document ∧
      absent.2 = .error (notFound "b") ∧ absent.1 = document := by
  intro document taken absent
  have sorted : document.fields.Sorted := Dictionary.sorted_iff_keys.mpr (by decide +kernel)
  have refused : taken.2 = .error (.invalidArgument (.serverExists "a")) := rfl
  have missing : absent.2 = .error (notFound "b") := rfl
  have visible : document.fields.get? serversKey = some (.object [("a", .int 0)]) := rfl
  refine ⟨sorted, refused, (edit_failed sorted "a").1 _ _ _ refused, missing, ?_⟩
  rw [(edit_failed sorted "b").2 _ missing, visible]
  refine ⟨nofun, nofun, fun table found => ?_⟩
  cases found
  rfl

/-- Three removals that fail and change the document: a table is made where there was none, one is
made in place of null, and an entry that is no server is lost. -/
theorem remove_leaves :
    let removal (fields : Json.Fields) := (⟨"m", fields⟩ : Document).remove "db"
    let emptied : Document := ⟨"m", [("mcpServers", .object [])]⟩
    (removal [] = (emptied, .error (notFound "db")) ∧ emptied ≠ ⟨"m", []⟩) ∧
      (removal [("mcpServers", .null)] = (emptied, .error (notFound "db")) ∧
        emptied ≠ ⟨"m", [("mcpServers", .null)]⟩) ∧
      (removal [("mcpServers", .object [("db", .int 5)])] =
          (emptied, .error (.json (.wrongType "integer `5`" "struct McpServer"))) ∧
        emptied ≠ ⟨"m", [("mcpServers", .object [("db", .int 5)])]⟩) := by
  intro removal emptied
  refine ⟨⟨rfl, ?_⟩, ⟨rfl, ?_⟩, ⟨rfl, ?_⟩⟩ <;> simp [emptied]

end Document

end FleetControl
