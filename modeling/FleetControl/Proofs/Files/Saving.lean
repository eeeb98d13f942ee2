import FleetControl.Files.Basic
import Mathlib.Tactic.Common

/-!
# Saving a file

What is proved, for a file that is saved at a path:

1. `readText_save`: its text is read back.
2. `isOk_save`: whether it can be saved does not depend on the text.
3. `isOk_save_again`: what was saved once can be saved again.
-/

namespace FleetControl

namespace Path

theorem named_of_ending {path : Path} (h : path.ending = .name) : path.named = path := by
  cases path
  cases h
  rfl

theorem not_isBelow_of_length {path above : Path} (h : path.names.length ≤ above.names.length) :
    path.isBelow above = false := by
  simp [isBelow, Nat.not_lt.mpr h]

end Path

namespace Files

variable {files saved : Files} {path : Path} {bytes : List UInt8}

theorem write_eq_ok (h : files.write path bytes = .ok saved) :
    path.ending = .name ∧ ∃ ownerOnly, saved = files.put path bytes ownerOnly ∧
      files.lookNamed path ≠ .blocked := by
  unfold write at h
  split at h
  · cases h
  · cases h
  · next nothing =>
    unfold create at h
    split at h
    · cases h
    · cases h
    · cases h
    · next name _ =>
      split at h
      · cases h
      · cases h
        exact ⟨name, false, rfl, by simp [nothing]⟩
  · next ownerOnly name file =>
    cases h
    exact ⟨name, ownerOnly, rfl, by simp [file]⟩
  · cases h
  · cases h

theorem not_blocked_put {place : Path} (ownerOnly : Bool)
    (short : place.names.length ≤ path.names.length)
    (free : files.entries.any (fun (p, entry) => isFile entry && place.isBelow p) = false) :
    (files.put path bytes ownerOnly).entries.any
      (fun (p, entry) => isFile entry && place.isBelow p) = false := by
  simp only [put, List.any_cons, Path.not_isBelow_of_length short, Bool.and_false, Bool.false_or]
  simp only [List.any_eq_false] at free ⊢
  intro entry member
  exact free entry ((List.mem_filter.mp member).1)

theorem free_of_lookNamed (h : files.lookNamed path ≠ .blocked) :
    files.entries.any (fun (p, entry) => isFile entry && path.isBelow p) = false := by
  rw [Bool.eq_false_iff]
  intro blocked
  exact h (by simp only [lookNamed, blocked, if_true])

theorem lookNamed_put (ownerOnly : Bool) (name : path.ending = .name)
    (free : files.lookNamed path ≠ .blocked) :
    (files.put path bytes ownerOnly).lookNamed path = .file bytes ownerOnly := by
  have free := @not_blocked_put files path bytes path ownerOnly (Nat.le_refl _)
    (free_of_lookNamed free)
  unfold lookNamed
  simp [free, Path.named_of_ending name, stored?_put]

/-- The directory above a file can be made, also once the file is there. -/
theorem makeDirectories_put {parent : Path} (ownerOnly : Bool) (above : path.parent? = some parent)
    (made : files.makeDirectories parent = .ok ()) :
    (files.put path bytes ownerOnly).makeDirectories parent = .ok () := by
  unfold Path.parent? at above
  split at above
  · cases above
  next full =>
  cases above
  set parent : Path := { path.named with names := path.names.dropLast }
  have shorter : parent.names.length < path.names.length := by
    have : 0 < path.names.length := by
      cases names : path.names with
      | nil => simp [names] at full
      | cons => simp
    simp only [parent, List.length_dropLast]
    omega
  have below : path.isBelow parent = true := by
    simp only [Path.isBelow, Bool.and_eq_true, beq_iff_eq, decide_eq_true_eq]
    refine ⟨⟨rfl, ?_⟩, shorter⟩
    rw [List.isPrefixOf_iff_prefix]
    exact List.dropLast_prefix _
  have other : parent ≠ path := fun same => by
    rw [same] at shorter
    exact Nat.lt_irrefl _ shorter
  have look : ∀ fs : Files, fs.look parent = fs.lookNamed parent := by
    intro fs
    unfold Files.look
    cases fs.lookNamed parent <;> rfl
  have free : files.lookNamed parent ≠ .blocked := by
    intro blocked
    rw [makeDirectories, look, blocked] at made
    cases made
  -- The directory is shorter than the path, so the new file neither stands at it nor blocks it.
  have before := free_of_lookNamed free
  have after := @not_blocked_put files path bytes parent ownerOnly (Nat.le_of_lt shorter) before
  have here : (files.put path bytes ownerOnly).entries.any (fun (p, _) => p.isBelow parent) :=
    List.any_eq_true.mpr ⟨(path, .file bytes ownerOnly), List.mem_cons_self, below⟩
  have same : parent.named = parent := rfl
  rw [makeDirectories, look] at made ⊢
  unfold lookNamed at made ⊢
  simp only [before, after, same, stored?_put, other, if_false, Bool.false_eq_true] at made ⊢
  cases stored : files.stored? parent with
  | some entry =>
    rw [stored] at made
    cases entry <;> exact made
  | none =>
    rw [stored] at made
    dsimp only at made ⊢
    by_cases climbs : parent.climbs = true
    · simp only [climbs, if_true]
    · by_cases empty : parent.names.isEmpty = true
      · simp only [climbs, empty, if_true] at made ⊢
        exact made
      · simp only [climbs, empty, here, if_true]
        rfl

/-! ## Saving -/

theorem save_eq_ok {content : String} (h : files.save path content = .ok saved) :
    (∀ parent, path.parent? = some parent → files.makeDirectories parent = .ok ()) ∧
      files.write path (Text.utf8 content) = .ok saved := by
  unfold save at h
  cases above : path.parent? with
  | none =>
    rw [above] at h
    exact ⟨nofun, h⟩
  | some parent =>
    rw [above] at h
    cases made : files.makeDirectories parent with
    | error fault =>
      simp only [made, bind, Except.bind] at h
      cases h
    | ok _ =>
      simp only [made, bind, Except.bind] at h
      exact ⟨fun other same => by cases same; exact made, h⟩

theorem save_of_ok {content : String}
    (above : ∀ parent, path.parent? = some parent → files.makeDirectories parent = .ok ())
    (written : files.write path (Text.utf8 content) = .ok saved) :
    files.save path content = .ok saved := by
  unfold save
  cases h : path.parent? with
  | none => exact written
  | some parent =>
    simp only [above parent h, bind, Except.bind]
    exact written

theorem readText_put (content : String) (ownerOnly : Bool) (name : path.ending = .name)
    (free : files.lookNamed path ≠ .blocked) :
    (files.put path (Text.utf8 content) ownerOnly).readText path = .ok (some content) := by
  have found := @lookNamed_put files path (Text.utf8 content) ownerOnly name free
  simp [readText, look, name, found, Text.ofUtf8?_utf8]

theorem readText_save {content : String} (h : files.save path content = .ok saved) :
    saved.readText path = .ok (some content) := by
  obtain ⟨name, ownerOnly, rfl, free⟩ := write_eq_ok (save_eq_ok h).2
  exact readText_put content ownerOnly name free

/-- What was saved once can be saved again. -/
theorem isOk_save_again {content : String} (h : files.save path content = .ok saved)
    (other : String) : (saved.save path other).isOk := by
  obtain ⟨above, written⟩ := save_eq_ok h
  obtain ⟨name, ownerOnly, rfl, free⟩ := write_eq_ok written
  have found := @lookNamed_put files path (Text.utf8 content) ownerOnly name free
  have again : (files.put path (Text.utf8 content) ownerOnly).write path (Text.utf8 other) =
      .ok ((files.put path (Text.utf8 content) ownerOnly).put path (Text.utf8 other) ownerOnly) := by
    simp [write, name, found]
  rw [save_of_ok (fun parent h => makeDirectories_put ownerOnly h (above parent h)) again]
  rfl

/-- Whether a file can be saved does not depend on its text. -/
theorem isOk_save (files : Files) (path : Path) (content other : String) :
    (files.save path content).isOk = (files.save path other).isOk := by
  have written : (files.write path (Text.utf8 content)).isOk =
      (files.write path (Text.utf8 other)).isOk := by
    unfold write create
    split
    any_goals rfl
    split
    any_goals rfl
    split <;> rfl
  unfold save
  cases path.parent? with
  | none => exact written
  | some parent =>
    simp only [bind, Except.bind]
    cases files.makeDirectories parent with
    | error fault => rfl
    | ok _ => exact written

end Files

end FleetControl
