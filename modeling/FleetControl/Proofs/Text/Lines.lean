import FleetControl.Text.Blank

/-!
# Lines of a text

1. `Text.Unbroken`: a text without line ends.
2. `Text.splitOn_join`: texts without line ends that are each written with a line end are what lies
   between the line ends, and nothing follows.
-/

namespace FleetControl.Text

/-- Whether a text has no line end. -/
def Unbroken (s : String) : Prop := '\n' ∉ s.toList

instance (s : String) : Decidable (Unbroken s) :=
  inferInstanceAs (Decidable (_ ∉ _))

theorem Unbroken.append {s t : String} (hs : Unbroken s) (ht : Unbroken t) : Unbroken (s ++ t) := by
  unfold Unbroken
  rw [String.toList_append, List.mem_append, not_or]
  exact ⟨hs, ht⟩

theorem Unbroken.join {sep : String} (hs : Unbroken sep) {parts : List String}
    (h : ∀ part ∈ parts, Unbroken part) : Unbroken (Text.join sep parts) := by
  induction parts using Text.join.induct with
  | case1 => exact List.not_mem_nil
  | case2 s => exact h s List.mem_cons_self
  | case3 s rest more ih =>
    rw [List.forall_mem_cons] at h
    rw [Text.join]
    · exact (h.1.append hs).append (ih h.2)
    · exact more

/-- Lines that each end at a line end are what lies between the line ends, and nothing follows. -/
theorem splitOn_join {lines : List String} (h : ∀ line ∈ lines, Unbroken line) :
    (String.join (lines.map (· ++ "\n"))).toList.splitOn '\n' = lines.map (·.toList) ++ [[]] := by
  have whole : (String.join (lines.map (· ++ "\n"))).toList =
      ['\n'].intercalate (lines.map (·.toList) ++ [[]]) := by
    clear h
    induction lines with
    | nil => rfl
    | cons line rest ih =>
      obtain ⟨next, more, he⟩ := List.exists_cons_of_ne_nil
        (List.append_ne_nil_of_right_ne_nil (rest.map (·.toList)) (List.cons_ne_nil [] []))
      rw [List.map_cons, String.join_cons, String.toList_append, String.toList_append, ih,
        List.map_cons, List.cons_append, he, List.intercalate_cons_cons]
      rfl
  rw [whole]
  refine List.splitOn_intercalate '\n' ?_ (by simp)
  intro line hline
  rcases List.mem_append.mp hline with hline | hline
  · obtain ⟨text, ht, rfl⟩ := List.mem_map.mp hline
    exact h text ht
  · rw [List.mem_singleton.mp hline]
    exact List.not_mem_nil

end FleetControl.Text
