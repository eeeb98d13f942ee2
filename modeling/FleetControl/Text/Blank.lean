/-!
# Blanks and letter case

Blank characters are those with the Unicode property `White_Space`; letter case is ASCII only.

1. `isBlank` is the property, `trim` takes blanks off both ends and keeps what stands between.
2. `lower` maps `A` to `Z` and leaves every other character alone.
3. `split?` cuts a text at the first occurrence of a character.
-/

namespace FleetControl.Text

/-- Whether a character has the Unicode property `White_Space`. -/
def isBlank (c : Char) : Bool :=
  let n := c.toNat
  (9 ≤ n && n ≤ 13) || n == 0x20 || n == 0x85 || n == 0xA0 || n == 0x1680 ||
    (0x2000 ≤ n && n ≤ 0x200A) || n == 0x2028 || n == 0x2029 || n == 0x202F ||
    n == 0x205F || n == 0x3000

/-- The text without leading characters of a class. -/
def dropStart (p : Char → Bool) (cs : List Char) : List Char :=
  cs.dropWhile p

/-- The text without trailing characters of a class. -/
def dropEnd (p : Char → Bool) (cs : List Char) : List Char :=
  (cs.reverse.dropWhile p).reverse

/-- The text between leading and trailing characters of a class. -/
def strip (p : Char → Bool) (cs : List Char) : List Char :=
  dropEnd p (dropStart p cs)

/-- The text without leading and trailing blanks. -/
def trim (s : String) : String :=
  String.ofList (strip isBlank s.toList)

/-- Whether a text is empty or holds nothing but blanks. -/
def isBlankText (s : String) : Bool :=
  s.toList.all isBlank

/-- The text with its ASCII letters in lower case. -/
def lower (s : String) : String :=
  String.ofList (s.toList.map Char.toLower)

/-- What stands before and after the first occurrence of a character. -/
def splitChars? (sep : Char) : List Char → Option (List Char × List Char)
  | [] => none
  | c :: rest =>
    if c = sep then some ([], rest)
    else (splitChars? sep rest).map fun (front, back) => (c :: front, back)

/-- What stands before and after the first occurrence of a character in a text. -/
def split? (sep : Char) (s : String) : Option (String × String) :=
  (splitChars? sep s.toList).map fun (front, back) => (String.ofList front, String.ofList back)

/-- The rest of a text that begins with the given characters. -/
def after? (start : List Char) (cs : List Char) : Option (List Char) :=
  match start, cs with
  | [], cs => some cs
  | _ :: _, [] => none
  | s :: start, c :: cs => if s = c then after? start cs else none

def startsWith (s start : String) : Bool :=
  (after? start.toList s.toList).isSome

/-- The texts in order with a separator between any two. -/
def join (sep : String) : List String → String
  | [] => ""
  | [s] => s
  | s :: rest => s ++ sep ++ join sep rest

/-! ## Small lemmas -/

theorem after?_append (start cs : List Char) : after? start (start ++ cs) = some cs := by
  induction start with
  | nil => cases cs <;> rfl
  | cons c start ih => simp [after?, ih]

theorem eq_append_of_after? {start cs rest : List Char} (h : after? start cs = some rest) :
    cs = start ++ rest := by
  induction start generalizing cs with
  | nil => simpa [after?] using h
  | cons s start ih =>
    cases cs with
    | nil => simp [after?] at h
    | cons c cs =>
      by_cases hc : s = c
      · subst hc
        simp [after?] at h
        simp [ih h]
      · simp [after?, hc] at h

theorem eq_append_of_splitChars? {sep : Char} {cs front back : List Char}
    (h : splitChars? sep cs = some (front, back)) : cs = front ++ sep :: back ∧ sep ∉ front := by
  induction cs generalizing front with
  | nil => simp [splitChars?] at h
  | cons c cs ih =>
    by_cases hc : c = sep
    · simp only [splitChars?, hc, if_true, Option.some.injEq, Prod.mk.injEq] at h
      obtain ⟨rfl, rfl⟩ := h
      simp [hc]
    · simp only [splitChars?, hc, if_false, Option.map_eq_some_iff, Prod.mk.injEq, Prod.exists] at h
      obtain ⟨f, b, hfb, rfl, rfl⟩ := h
      obtain ⟨h₁, h₂⟩ := ih hfb
      refine ⟨by simp [h₁], ?_⟩
      simp only [List.mem_cons, not_or]
      exact ⟨fun e => hc e.symm, h₂⟩

theorem splitChars?_append {sep : Char} {front : List Char} (h : sep ∉ front) (back : List Char) :
    splitChars? sep (front ++ sep :: back) = some (front, back) := by
  induction front with
  | nil => simp [splitChars?]
  | cons c front ih =>
    obtain ⟨other, later⟩ := not_or.mp (mt List.mem_cons.mpr h)
    simp [splitChars?, Ne.symm other, ih later]

end FleetControl.Text
