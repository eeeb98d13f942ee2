import FleetControl.Text.Bytes
import Mathlib.Tactic.Common

/-!
# The order of texts is the order of their bytes

What is proved: `utf8_lt_iff`, a text comes before another exactly if its bytes do. For two
characters this is `encode_lt`: the encodings of different length differ in their first byte, and
those of one length in the first of their groups of six bits that differs.
-/

namespace FleetControl.Text

theorem ofNat_lt {a b : Nat} (ha : a < 256) (hb : b < 256) (h : a < b) :
    UInt8.ofNat a < UInt8.ofNat b := by
  rw [UInt8.lt_iff_toNat_lt, UInt8.toNat_ofNat', UInt8.toNat_ofNat', Nat.mod_eq_of_lt ha,
    Nat.mod_eq_of_lt hb]
  exact h

theorem cons_lt_of {a b : Nat} (ha : a < 256) (hb : b < 256) {u v : List UInt8}
    (h : a < b ∨ a = b ∧ u < v) : UInt8.ofNat a :: u < UInt8.ofNat b :: v := by
  rw [List.cons_lt_cons_iff]
  rcases h with h | ⟨rfl, h⟩
  · exact .inl (ofNat_lt ha hb h)
  · exact .inr ⟨rfl, h⟩

/-! ## Groups of six bits -/

section Groups

variable {m n : Nat} (less : m < n) (u v : List UInt8)
include less

theorem one_group_lt (same : m / 64 = n / 64) :
    UInt8.ofNat (m % 64 + 128) :: u < UInt8.ofNat (n % 64 + 128) :: v := by
  apply cons_lt_of (by omega) (by omega)
  left
  omega

theorem two_groups_lt (same : m / 4096 = n / 4096) :
    UInt8.ofNat (m / 64 % 64 + 128) :: UInt8.ofNat (m % 64 + 128) :: u <
      UInt8.ofNat (n / 64 % 64 + 128) :: UInt8.ofNat (n % 64 + 128) :: v := by
  apply cons_lt_of (by omega) (by omega)
  by_cases first : m / 64 < n / 64
  · left
    omega
  · exact .inr ⟨by omega, one_group_lt less u v (by omega)⟩

theorem three_groups_lt (same : m / 262144 = n / 262144) :
    UInt8.ofNat (m / 4096 % 64 + 128) :: UInt8.ofNat (m / 64 % 64 + 128) ::
        UInt8.ofNat (m % 64 + 128) :: u <
      UInt8.ofNat (n / 4096 % 64 + 128) :: UInt8.ofNat (n / 64 % 64 + 128) ::
        UInt8.ofNat (n % 64 + 128) :: v := by
  apply cons_lt_of (by omega) (by omega)
  by_cases first : m / 4096 < n / 4096
  · left
    omega
  · exact .inr ⟨by omega, two_groups_lt less u v (by omega)⟩

end Groups

/-- A character that comes before another has bytes that come before its bytes. -/
theorem encode_lt {c d : Char} (h : c < d) (u v : List UInt8) :
    String.utf8EncodeChar c ++ u < String.utf8EncodeChar d ++ v := by
  have less : c.val.toNat < d.val.toNat := h
  have range : d.val.toNat < 1114112 := by
    rcases d.valid with h | h <;> omega
  unfold String.utf8EncodeChar
  generalize c.val.toNat = m at less
  generalize d.val.toNat = n at less range
  dsimp only
  -- The cases are the lengths of the two encodings. Only where these are the same is there more to
  -- compare than the first bytes.
  by_cases m1 : m ≤ 127
  · simp only [m1, if_true, List.cons_append]
    by_cases n1 : n ≤ 127
    · simp only [n1, if_true, List.cons_append]
      exact cons_lt_of (by omega) (by omega) (.inl less)
    by_cases n2 : n ≤ 2047
    · simp only [n1, n2, if_true, if_false, List.cons_append]
      exact cons_lt_of (by omega) (by omega) (.inl (by omega))
    by_cases n3 : n ≤ 65535 <;> simp only [n1, n2, n3, if_true, if_false, List.cons_append]
    all_goals exact cons_lt_of (by omega) (by omega) (.inl (by omega))
  have n1 : ¬ n ≤ 127 := by omega
  by_cases m2 : m ≤ 2047
  · simp only [m1, m2, n1, if_true, if_false, List.cons_append, List.nil_append]
    by_cases n2 : n ≤ 2047
    · simp only [n2, if_true, List.cons_append, List.nil_append]
      apply cons_lt_of (by omega) (by omega)
      by_cases first : m / 64 < n / 64
      · left
        omega
      · exact .inr ⟨by omega, one_group_lt less u v (by omega)⟩
    by_cases n3 : n ≤ 65535 <;> simp only [n2, n3, if_true, if_false, List.cons_append]
    all_goals exact cons_lt_of (by omega) (by omega) (.inl (by omega))
  have n2 : ¬ n ≤ 2047 := by omega
  by_cases m3 : m ≤ 65535
  · simp only [m1, m2, m3, n1, n2, if_true, if_false, List.cons_append, List.nil_append]
    by_cases n3 : n ≤ 65535
    · simp only [n3, if_true, List.cons_append, List.nil_append]
      apply cons_lt_of (by omega) (by omega)
      by_cases first : m / 4096 < n / 4096
      · left
        omega
      · exact .inr ⟨by omega, two_groups_lt less u v (by omega)⟩
    · simp only [n3, if_false, List.cons_append]
      exact cons_lt_of (by omega) (by omega) (.inl (by omega))
  have n3 : ¬ n ≤ 65535 := by omega
  simp only [m1, m2, m3, n1, n2, n3, if_false, List.cons_append, List.nil_append]
  apply cons_lt_of (by omega) (by omega)
  by_cases first : m / 262144 < n / 262144
  · left
    omega
  · exact .inr ⟨by omega, three_groups_lt less u v (by omega)⟩

theorem flatMap_encode_lt {cs ds : List Char} (h : cs < ds) :
    cs.flatMap String.utf8EncodeChar < ds.flatMap String.utf8EncodeChar := by
  induction cs generalizing ds with
  | nil =>
    cases ds with
    | nil => exact absurd h (List.not_lt_nil _)
    | cons d ds =>
      obtain ⟨b, bytes, shape⟩ := List.exists_cons_of_ne_nil (@String.utf8EncodeChar_ne_nil d)
      simp [shape]
  | cons c cs ih =>
    cases ds with
    | nil => exact absurd h (List.not_lt_nil _)
    | cons d ds =>
      simp only [List.flatMap_cons]
      rcases List.cons_lt_cons_iff.mp h with less | ⟨rfl, less⟩
      · exact encode_lt less _ _
      · exact List.append_left_lt (ih less)

/-- A text comes before another exactly if its bytes come before those of the other. -/
theorem utf8_lt_iff {s t : String} : utf8 s < utf8 t ↔ s < t := by
  refine ⟨fun h => ?_, fun h => flatMap_encode_lt (String.lt_iff.mp h)⟩
  rcases (by grind : s < t ∨ s = t ∨ t < s) with less | rfl | more
  · exact less
  · exact absurd h (List.lt_irrefl _)
  · have back : utf8 t < utf8 s := flatMap_encode_lt (String.lt_iff.mp more)
    exact absurd (List.lt_trans h back) (List.lt_irrefl _)

end FleetControl.Text
