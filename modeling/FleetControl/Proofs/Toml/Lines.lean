import FleetControl.Proofs.Toml.Strings
import FleetControl.Proofs.Json.Tokens

/-!
# TOML documents of lines are read as they were written

A `Scalar` is a text or a number with its written form. What is proved:

1. `Scalar.rereads_text` and `Scalar.rereads_number`: it is read back at the end of a line; of numbers
   this needs 64 bits.
2. `readLine_pairLine`: a line is read as its key and its value, and no more is read.
3. `readLines_linesText`, by induction on the lines: each adds its pair to the table, which must not
   have the key yet. `read?_linesText` is the whole document.
-/

namespace FleetControl.Toml

/-! ## Numbers -/

theorem digits?_eq {cs : List Char} (full : cs ≠ []) (digits : ∀ c ∈ cs, c.isDigit = true) :
    digits? Char.isDigit cs = some cs := by
  induction cs with
  | nil => exact absurd rfl full
  | cons c cs ih =>
    obtain ⟨first, later⟩ := List.forall_mem_cons.mp digits
    cases cs with
    | nil => simp [digits?, first]
    | cons d ds =>
      have digit : d ≠ '_' := by
        rintro rfl
        exact absurd (later _ List.mem_cons_self) (by decide)
      unfold digits?
      split
      · next same => cases same
      · next same => cases same
      · next same =>
        simp only [List.cons.injEq] at same
        exact absurd same.2.1 digit
      · next same =>
        cases same
        simp [first, ih (List.cons_ne_nil _ _) later]

theorem isDigit_of_mem {n : Nat} {c : Char} (member : c ∈ Nat.toDigits 10 n) : c.isDigit = true :=
  Nat.isDigit_of_mem_toDigits (by decide) (by decide) member

theorem decimal?_toDigits (n : Nat) : decimal? (Nat.toDigits 10 n) = some (Nat.toDigits 10 n) := by
  have zero : hasLeadingZero (Nat.toDigits 10 n) = false := by
    unfold hasLeadingZero
    split
    · next second rest same =>
      have only := Text.eq_zero_of_head_toDigits n (by simp [same])
      subst only
      cases same
    · rfl
  simp [decimal?, digits?_eq Nat.toDigits_ne_nil fun c => isDigit_of_mem, zero]

theorem signed_toDigits (n : Nat) : signed (Nat.toDigits 10 n) = (false, Nat.toDigits 10 n) := by
  have digit (c : Char) (cs : List Char) (same : Nat.toDigits 10 n = c :: cs) : c.isDigit = true :=
    isDigit_of_mem (by rw [same]; exact List.mem_cons_self)
  unfold signed
  split
  · next same => exact absurd (digit _ _ same) (by decide)
  · next same => exact absurd (digit _ _ same) (by decide)
  · rfl

theorem integer?_toDigits {n : Nat} (small : n < UInt64.size) :
    integer? (Nat.toDigits 10 n) = some (n : Int) := by
  have second (c d : Char) (cs : List Char) (same : Nat.toDigits 10 n = c :: d :: cs) :
      d.isDigit = true := isDigit_of_mem (by rw [same]; simp)
  have range : -Int.pow 2 127 ≤ (n : Int) ∧ (n : Int) < Int.pow 2 128 := by
    have least : Int.pow 2 127 = 170141183460469231731687303715884105728 := by decide
    have greatest : Int.pow 2 128 = 340282366920938463463374607431768211456 := by decide
    simp only [UInt64.size] at small
    omega
  unfold integer?
  split
  · next same => exact absurd (second _ _ _ same) (by decide)
  · next same => exact absurd (second _ _ _ same) (by decide)
  · next same => exact absurd (second _ _ _ same) (by decide)
  · simp only [signed_toDigits, decimal?_toDigits, Option.map_some, Text.numberOf_toDigits,
      Option.filter_some]
    simp only [range, decide_true, Bool.and_self, Bool.false_eq_true, if_false, if_true]

/-- A bare word of digits ends where the line does. -/
theorem bareWord_toDigits (n : Nat) (rest : List Char) :
    bareWord (Nat.toDigits 10 n ++ '\n' :: rest) = Nat.toDigits 10 n := by
  have word : (Nat.toDigits 10 n ++ '\n' :: rest).takeWhile isBare = Nat.toDigits 10 n := by
    rw [List.takeWhile_append_of_pos]
    · simp [isBare]
    · intro c member
      simp [isBare, Char.isAlphanum, isDigit_of_mem member]
  simp [bareWord, word]

theorem bareValue?_toDigits {n : Nat} (small : n < UInt64.size) :
    bareValue? (Nat.toDigits 10 n) = some (.integer n) := by
  have digit (c : Char) (cs : List Char) (same : Nat.toDigits 10 n = c :: cs) : c.isDigit = true :=
    isDigit_of_mem (by rw [same]; exact List.mem_cons_self)
  have yes : Nat.toDigits 10 n ≠ ['t', 'r', 'u', 'e'] := fun same =>
    absurd (digit _ _ same) (by decide)
  have no : Nat.toDigits 10 n ≠ ['f', 'a', 'l', 's', 'e'] := fun same =>
    absurd (digit _ _ same) (by decide)
  simp only [bareValue?, yes, no, if_false, integer?_toDigits small]

/-! ## Lines -/

/-- What stands behind a bare key. -/
structure Scalar where
  written : String
  value : Value

namespace Scalar

def text (s : String) : Scalar := ⟨quoted s, .string s⟩

def number (n : Nat) : Scalar := ⟨String.ofList (Nat.toDigits 10 n), .integer n⟩

/-- Whether a value is read back at the end of a line. -/
structure Rereads (scalar : Scalar) : Prop where
  begins : ∃ c cs, scalar.written.toList = c :: cs ∧ isGap c = false
  read : ∀ fuel depth rest, readValue (fuel + 1) depth (scalar.written.toList ++ '\n' :: rest) =
    some (scalar.value, '\n' :: rest)

theorem rereads_text (s : String) : (text s).Rereads := by
  have quote : ∃ c cs, (quoted s).toList = c :: cs ∧ (c = '"' ∨ c = '\'') := by
    rw [toList_quoted]
    rcases Form.choose (Traits.of s.toList) with ⟨_ | _, _ | _⟩
    · exact ⟨_, _, rfl, .inr rfl⟩
    · exact ⟨_, _, rfl, .inr rfl⟩
    · exact ⟨_, _, rfl, .inl rfl⟩
    · exact ⟨_, _, rfl, .inl rfl⟩
  obtain ⟨c, cs, shape, quote⟩ := quote
  refine ⟨⟨c, cs, shape, by rcases quote with rfl | rfl <;> rfl⟩, fun fuel depth rest => ?_⟩
  have read := @readString_quoted s ('\n' :: rest) (by simp [EndsString])
  simp only [text]
  rw [shape, List.cons_append] at read ⊢
  rcases quote with rfl | rfl
  · simp only [readValue, read]
    rfl
  · simp only [readValue, read]
    rfl

theorem rereads_number {n : Nat} (small : n < UInt64.size) : (number n).Rereads := by
  obtain ⟨c, cs, shape⟩ := List.exists_cons_of_ne_nil (@Nat.toDigits_ne_nil n 10)
  have digit : c.isDigit = true := isDigit_of_mem (by rw [shape]; exact List.mem_cons_self)
  have written : (number n).written.toList = Nat.toDigits 10 n := String.toList_ofList
  refine ⟨⟨c, cs, written.trans shape, ?_⟩, fun fuel depth rest => ?_⟩
  · rw [Bool.eq_false_iff]
    intro gap
    simp only [isGap, Bool.or_eq_true, beq_iff_eq] at gap
    rcases gap with rfl | rfl <;> exact absurd digit (by decide)
  · have word := bareWord_toDigits n rest
    have value := bareValue?_toDigits small
    have behind : (Nat.toDigits 10 n ++ '\n' :: rest).drop (Nat.toDigits 10 n).length =
        '\n' :: rest := by simp
    have ne (d : Char) (other : d.isDigit = false) (tail : List Char) :
        Nat.toDigits 10 n ++ '\n' :: rest ≠ d :: tail := by
      intro same
      rw [shape, List.cons_append] at same
      cases same
      rw [digit] at other
      cases other
    rw [written]
    unfold readValue
    split
    · next same => exact absurd same (ne _ (by decide) _)
    · next same => exact absurd same (ne _ (by decide) _)
    · next same => exact absurd same (ne _ (by decide) _)
    · next same => exact absurd same (ne _ (by decide) _)
    · simp only [word, value, behind]
      rfl

end Scalar

/-- Whether a key is written without quotes. -/
structure IsBareKey (key : String) : Prop where
  full : key.toList ≠ []
  plain : ∀ c ∈ key.toList, isKeyChar c = true

theorem ne_of_isKeyChar {c d : Char} (plain : isKeyChar c = true) (other : isKeyChar d = false) :
    c ≠ d := by
  rintro rfl
  rw [plain] at other
  cases other

theorem skipGap_cons {c : Char} (other : isGap c = false) (cs : List Char) :
    skipGap (c :: cs) = c :: cs := by
  simp [skipGap, other]

theorem isGap_of_isKeyChar {c : Char} (plain : isKeyChar c = true) : isGap c = false := by
  have space := ne_of_isKeyChar plain (show isKeyChar ' ' = false by decide)
  have tab := ne_of_isKeyChar plain (show isKeyChar '\t' = false by decide)
  simp [isGap, space, tab]

theorem skipAll_cons {c : Char} (plain : isKeyChar c = true) (cs : List Char) :
    skipAll (c :: cs) = c :: cs := by
  have line := newline?_cons (ne_of_isKeyChar plain (show isKeyChar '\n' = false by decide))
    (ne_of_isKeyChar plain (show isKeyChar '\r' = false by decide)) cs
  have comment : comment? (c :: cs) = none := by
    unfold comment?
    split
    · next same =>
      cases same
      exact absurd plain (by decide)
    · rfl
  simp only [skipAll, skipLines, skipGap_cons (isGap_of_isKeyChar plain), line, comment]

theorem readKey_bare {key : String} (bare : IsBareKey key) (rest : List Char) :
    readKey (key.toList ++ ' ' :: '=' :: rest) = some ([key], '=' :: rest) := by
  obtain ⟨c, cs, shape⟩ := List.exists_cons_of_ne_nil bare.full
  have first : isKeyChar c = true := bare.plain c (by rw [shape]; exact List.mem_cons_self)
  have word : (key.toList ++ ' ' :: '=' :: rest).takeWhile isKeyChar = key.toList := by
    rw [List.takeWhile_append_of_pos bare.plain]
    have stop : isKeyChar ' ' = false := by decide
    simp [stop]
  have simple : readSimpleKey (key.toList ++ ' ' :: '=' :: rest) =
      some (key, ' ' :: '=' :: rest) := by
    unfold readSimpleKey
    rw [word, shape]
    simp [← shape]
  have gap : skipGap (key.toList ++ ' ' :: '=' :: rest) = key.toList ++ ' ' :: '=' :: rest := by
    rw [shape]
    exact skipGap_cons (isGap_of_isKeyChar first) _
  have behind : skipGap (' ' :: '=' :: rest) = '=' :: rest := rfl
  simp only [readKey, readKeyParts, gap, simple, Option.bind_eq_bind, Option.bind_some, behind]
  rfl

theorem toList_pairLine (key written : String) :
    (pairLine key written).toList = key.toList ++ ' ' :: '=' :: ' ' :: (written.toList ++ ['\n']) := by
  simp [pairLine]

theorem readLine_pairLine {key : String} {scalar : Scalar} (bare : IsBareKey key)
    (rereads : scalar.Rereads) (rest : List Char) :
    readLine ((pairLine key scalar.written).toList ++ rest) =
      some (.pair [key] scalar.value, '\n' :: rest) := by
  obtain ⟨c, cs, shape⟩ := List.exists_cons_of_ne_nil bare.full
  have first : isKeyChar c = true := bare.plain c (by rw [shape]; exact List.mem_cons_self)
  have bracket := ne_of_isKeyChar first (show isKeyChar '[' = false by decide)
  have text : (pairLine key scalar.written).toList ++ rest =
      key.toList ++ ' ' :: '=' :: (' ' :: (scalar.written.toList ++ '\n' :: rest)) := by
    simp [toList_pairLine]
  have keyRead := readKey_bare bare (' ' :: (scalar.written.toList ++ '\n' :: rest))
  obtain ⟨d, ds, begins, gap⟩ := rereads.begins
  have behind : skipGap (' ' :: (scalar.written.toList ++ '\n' :: rest)) =
      scalar.written.toList ++ '\n' :: rest := by
    rw [begins, List.cons_append]
    exact skipGap_cons gap _
  rw [text]
  unfold readLine
  split
  · next same =>
    rw [shape] at same
    exact absurd (List.cons.inj same).1 bracket
  · next same =>
    rw [shape] at same
    exact absurd (List.cons.inj same).1 bracket
  · simp only [keyRead, Option.bind_eq_bind, Option.bind_some, Text.after?, if_true, behind,
      rereads.read]

/-- The lines of a document, each a bare key and a value. -/
def linesText (lines : List (String × Scalar)) : List Char :=
  lines.flatMap fun line => (pairLine line.1 line.2.written).toList

/-- Lines under keys that are not taken yet add their values to the table. -/
theorem readLines_linesText {lines : List (String × Scalar)}
    (good : ∀ line ∈ lines, IsBareKey line.1 ∧ line.2.Rereads)
    {fields : Fields} {fuel : Nat} (enough : lines.length < fuel)
    (distinct : (fields.map (·.1) ++ lines.map (·.1)).Nodup) :
    readLines fuel fields [] (linesText lines) =
      some (fields ++ lines.map fun line => (line.1, line.2.value)) := by
  induction lines generalizing fields fuel with
  | nil =>
    obtain ⟨fuel, rfl⟩ := Nat.exists_eq_succ_of_ne_zero (Nat.ne_of_gt (Nat.zero_lt_of_lt enough))
    simp [linesText, readLines, skipAll, skipLines, skipGap, newline?, comment?]
  | cons line lines ih =>
    obtain ⟨fuel, rfl⟩ := Nat.exists_eq_succ_of_ne_zero (Nat.ne_of_gt (Nat.zero_lt_of_lt enough))
    obtain ⟨⟨bare, rereads⟩, later⟩ := List.forall_mem_cons.mp good
    obtain ⟨key, scalar⟩ := line
    obtain ⟨c, cs, shape⟩ := List.exists_cons_of_ne_nil bare.full
    have first : isKeyChar c = true := bare.plain c (by rw [shape]; exact List.mem_cons_self)
    have text : linesText ((key, scalar) :: lines) =
        (pairLine key scalar.written).toList ++ linesText lines := rfl
    have skipped : skipAll (linesText ((key, scalar) :: lines)) =
        linesText ((key, scalar) :: lines) := by
      rw [text, toList_pairLine, shape, List.cons_append]
      exact skipAll_cons first _
    have full : linesText ((key, scalar) :: lines) ≠ [] := by
      rw [text, toList_pairLine, shape]
      exact List.cons_ne_nil _ _
    have lineRead := readLine_pairLine bare rereads (linesText lines)
    rw [← text] at lineRead
    have ended : lineEnd? ('\n' :: linesText lines) = some (linesText lines) := rfl
    have free : fields.get? key = none := by
      refine List.lookup_eq_none_iff.mpr fun pair member => ?_
      have apart := (List.nodup_append.mp distinct).2.2 pair.1 (List.mem_map_of_mem member) key
        List.mem_cons_self
      simpa using Ne.symm apart
    have assigned : fields.assign scalar.value [key] [] = some (fields ++ [(key, scalar.value)]) := by
      simp [Fields.assign, Fields.assignKey, free, Fields.add]
    have rest := @ih later (fields ++ [(key, scalar.value)]) fuel (Nat.lt_of_succ_lt_succ enough)
      (by simpa using distinct)
    unfold readLines
    rw [skipped]
    split
    · next none => exact absurd none full
    · simp only [lineRead, Option.bind_eq_bind, Option.bind_some, ended, assigned, rest]
      simp

theorem length_le_linesText (lines : List (String × Scalar)) :
    lines.length ≤ (linesText lines).length := by
  induction lines with
  | nil => exact Nat.le_refl _
  | cons line lines ih =>
    have text : linesText (line :: lines) =
        (pairLine line.1 line.2.written).toList ++ linesText lines := rfl
    rw [text, toList_pairLine]
    simp only [List.length_append, List.length_cons]
    omega

/-- A document of lines is read as the table of their values. -/
theorem read?_linesText {lines : List (String × Scalar)}
    (good : ∀ line ∈ lines, IsBareKey line.1 ∧ line.2.Rereads)
    (distinct : (lines.map (·.1)).Nodup) {s : String} (text : s.toList = linesText lines) :
    read? s = some (lines.map fun line => (line.1, line.2.value)) := by
  have enough : lines.length < (linesText lines).length + 1 :=
    Nat.lt_succ_of_le (length_le_linesText lines)
  have apart : (([] : Fields).map (·.1) ++ lines.map (·.1)).Nodup := distinct
  have read := readLines_linesText good enough apart
  have unmarked (rest : List Char) : linesText lines ≠ '\uFEFF' :: rest := by
    intro same
    cases lines with
    | nil => cases same
    | cons line lines =>
      obtain ⟨bare, -⟩ := good line List.mem_cons_self
      obtain ⟨c, cs, shape⟩ := List.exists_cons_of_ne_nil bare.full
      have begins : linesText (line :: lines) =
        (pairLine line.1 line.2.written).toList ++ linesText lines := rfl
      rw [begins, toList_pairLine, shape] at same
      have first := bare.plain c (by rw [shape]; exact List.mem_cons_self)
      rw [(List.cons.inj same).1] at first
      exact absurd first (by decide)
  unfold read?
  rw [text]
  dsimp only
  split
  · next rest same => exact absurd same (unmarked rest)
  · rw [read]
    rfl

end FleetControl.Toml
