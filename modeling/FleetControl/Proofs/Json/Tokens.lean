import FleetControl.Json.Printer
import FleetControl.Json.Reader
import Mathlib.Algebra.Group.Int.Defs
import Mathlib.Tactic.Common

/-!
# Strings and numbers are read as they were written

What is proved:

1. `readString_escaped`: a string in quotes is read back, whatever characters it has. The step is
   `readUnits_escapeChar`: one character, escaped or not, is one unit.
2. `readNumber_intChars`: an integer between `-2^63` and `2^64 - 1` is read back from its digits, if
   what follows does not go on with the number (`EndsNumber`).
3. `readNumber_append`: a text that is read as a number is read so in front of any such text.
-/

namespace FleetControl

/-! ## Decimal digits -/

namespace Text

theorem digitValue?_digitChar : ∀ d < 10, digitValue? d.digitChar = some d := by decide

theorem numberOf_toDigits (n : Nat) : numberOf 10 (Nat.toDigits 10 n) = n := by
  induction n using Nat.strongRecOn with
  | ind n ih =>
    by_cases small : n < 10
    · rw [Nat.toDigits_of_lt_base small]
      simp [numberOf, digitValue?_digitChar n small]
    · rw [Nat.toDigits_of_base_le (by omega) (by omega), numberOf_append, ih (n / 10) (by omega),
        digitValue?_digitChar (n % 10) (by omega)]
      simp only [Option.getD_some]
      omega

theorem eq_zero_of_head_toDigits (n : Nat) (h : (Nat.toDigits 10 n).head? = some '0') : n = 0 := by
  induction n using Nat.strongRecOn with
  | ind n ih =>
    by_cases small : n < 10
    · rw [Nat.toDigits_of_lt_base small] at h
      simpa using h
    · rw [Nat.toDigits_of_base_le (by omega) (by omega)] at h
      cases shape : Nat.toDigits 10 (n / 10) with
      | nil => exact absurd shape Nat.toDigits_ne_nil
      | cons c cs =>
        rw [shape] at h
        have := ih (n / 10) (by omega) (by rw [shape]; exact h)
        omega

end Text

namespace Json

/-! ## Strings -/

theorem readHex4_control {n : Nat} (h : n < 0x20) (rest : List Char) :
    readHex4 ('0' :: '0' :: Text.lowerDigit (n / 16) :: Text.lowerDigit (n % 16) :: rest) =
      .ok (n, rest) := by
  have zero : Text.digitValue? '0' = some 0 := by decide
  simp only [readHex4, zero, Text.digitValue?_lowerDigit (n / 16) (by omega),
    Text.digitValue?_lowerDigit (n % 16) (by omega)]
  congr 2
  omega

theorem ofCode_control {c : Char} (h : c.toNat < 0x20) : StringUnit.ofCode c.toNat = .char c := by
  have low : ¬ (0xD800 ≤ c.toNat ∧ c.toNat < 0xDC00) := by omega
  have high : ¬ (0xDC00 ≤ c.toNat ∧ c.toNat < 0xE000) := by omega
  simp [StringUnit.ofCode, low, high, Char.ofNat_toNat]

theorem readUnits_escapeChar (fuel : Nat) (c : Char) (cs : List Char) :
    readUnits (fuel + 1) (escapeChar c ++ cs) =
      (do
        let (units, rest) ← readUnits fuel cs
        pure (.char c :: units, rest)) := by
  by_cases named : c ∈ ['"', '\\', '\n', '\t', '\r', Char.ofNat 8, Char.ofNat 12]
  · simp only [List.mem_cons, List.not_mem_nil, or_false] at named
    rcases named with rfl | rfl | rfl | rfl | rfl | rfl | rfl <;> rfl
  · simp only [List.mem_cons, List.not_mem_nil, or_false, not_or] at named
    obtain ⟨quote, backslash, line, tab, carriage, back, feed⟩ := named
    -- The writer asks for the codes of the last two, which have no literal.
    have back : c.toNat ≠ 8 := fun h => back (by rw [← h, Char.ofNat_toNat])
    have feed : c.toNat ≠ 12 := fun h => feed (by rw [← h, Char.ofNat_toNat])
    by_cases control : c.toNat < 0x20
    · have shape : escapeChar c = ['\\', 'u', '0', '0', Text.lowerDigit (c.toNat / 16),
          Text.lowerDigit (c.toNat % 16)] := by
        simp [escapeChar, quote, backslash, line, tab, carriage, back, feed, control]
      simp [shape, readUnits, readHex4_control control, ofCode_control control, bind, Except.bind]
    · have shape : escapeChar c = [c] := by simp [escapeChar, quote, backslash, control]
      simp [shape, readUnits, quote, backslash, control]

theorem readUnits_escaped (cs rest : List Char) {fuel : Nat} (enough : cs.length < fuel) :
    readUnits fuel (cs.flatMap escapeChar ++ '"' :: rest) = .ok (cs.map .char, rest) := by
  induction cs generalizing fuel with
  | nil =>
    obtain ⟨fuel, rfl⟩ := Nat.exists_eq_succ_of_ne_zero (Nat.ne_of_gt enough)
    rfl
  | cons c cs ih =>
    obtain ⟨fuel, rfl⟩ := Nat.exists_eq_succ_of_ne_zero (Nat.ne_of_gt (Nat.zero_lt_of_lt enough))
    rw [List.flatMap_cons, List.append_assoc, readUnits_escapeChar,
      ih (Nat.lt_of_succ_lt_succ enough)]
    rfl

theorem unitsText?_char (cs : List Char) : unitsText? (cs.map .char) = some cs := by
  induction cs with
  | nil => rfl
  | cons c cs ih => simp [unitsText?, ih]

theorem length_le_escaped (cs : List Char) : cs.length ≤ (cs.flatMap escapeChar).length := by
  induction cs with
  | nil => exact Nat.le_refl _
  | cons c cs ih =>
    have one : 1 ≤ (escapeChar c).length := by
      unfold escapeChar
      repeat' split
      all_goals simp
    simp only [List.flatMap_cons, List.length_append, List.length_cons]
    omega

/-- A string is read back from its escaped form. -/
theorem readString_escaped (s : String) (rest : List Char) :
    readString (s.toList.flatMap escapeChar ++ '"' :: rest) = .ok (some s, rest) := by
  have enough : s.toList.length < (s.toList.flatMap escapeChar ++ '"' :: rest).length + 1 := by
    have := length_le_escaped s.toList
    simp only [List.length_append, List.length_cons]
    omega
  unfold readString
  rw [readUnits_escaped s.toList rest enough]
  simp [bind, Except.bind, pure, Except.pure, unitsText?_char]

/-! ## Integers -/

/-- The integers that are read as integers. -/
def InRange (n : Int) : Prop :=
  -(2 ^ 63) ≤ n ∧ n < 2 ^ 64

/-- Whether a number ends where this text begins. -/
def EndsNumber : List Char → Prop
  | [] => True
  | c :: _ => c.isDigit = false ∧ c ≠ '.' ∧ c ≠ 'e' ∧ c ≠ 'E'

theorem spanDigits_toDigits (n : Nat) {rest : List Char} (ends : EndsNumber rest) :
    spanDigits (Nat.toDigits 10 n ++ rest) = (Nat.toDigits 10 n, rest) := by
  have digits : ∀ c ∈ Nat.toDigits 10 n, c.isDigit = true :=
    fun c hc => Nat.isDigit_of_mem_toDigits (by decide) (by decide) hc
  unfold spanDigits
  rw [List.takeWhile_append_of_pos digits, List.dropWhile_append_of_pos digits]
  cases rest with
  | nil => simp
  | cons c rest => simp [ends.1]

theorem readFraction_ended {rest : List Char} (ends : EndsNumber rest) :
    readFraction rest = .ok (none, rest) := by
  unfold readFraction
  split
  · exact absurd rfl ends.2.1
  · rfl

theorem readExponent_ended {rest : List Char} (ends : EndsNumber rest) :
    readExponent rest = .ok (none, rest) := by
  unfold readExponent
  split
  · simp [ends.2.2.1, ends.2.2.2]
  · rfl

theorem readNumeral_toDigits (negative : Bool) (n : Nat) {rest : List Char}
    (ends : EndsNumber rest) :
    readNumeral negative (Nat.toDigits 10 n ++ rest) =
      .ok (⟨negative, Nat.toDigits 10 n, [], none, true⟩, rest) := by
  unfold readNumeral
  rw [spanDigits_toDigits n ends]
  split
  · next empty =>
    exact absurd (Prod.mk.inj empty).1 Nat.toDigits_ne_nil
  · next c cs _ padded =>
    -- Only zero begins with the digit zero, and nothing stands behind it.
    have shape := (Prod.mk.inj padded).1
    have zero : n = 0 := Text.eq_zero_of_head_toDigits n (by rw [shape]; rfl)
    subst zero
    cases shape
  · next same =>
    obtain ⟨rfl, rfl⟩ := Prod.mk.inj same
    rw [readFraction_ended ends]
    simp [bind, Except.bind, pure, Except.pure, readExponent_ended ends]

theorem readNumber_intChars {n : Int} (range : InRange n) {rest : List Char}
    (ends : EndsNumber rest) :
    readNumber (intChars n ++ rest) = .ok (some (.int n), rest) := by
  obtain ⟨least, greatest⟩ := range
  cases n with
  | ofNat k =>
    have bound : k ≤ Numeral.maxSignificand := by
      have : (Int.ofNat k : Int) = (k : Int) := rfl
      simp only [Numeral.maxSignificand, UInt64.size]
      omega
    have first : ∀ tail, Nat.toDigits 10 k ++ rest ≠ '-' :: tail := by
      intro tail same
      have digit : '-' ∈ Nat.toDigits 10 k := by
        cases shape : Nat.toDigits 10 k with
        | nil => exact absurd shape Nat.toDigits_ne_nil
        | cons c cs =>
          rw [shape] at same
          simp_all
      exact absurd (Nat.isDigit_of_mem_toDigits (by decide) (by decide) digit) (by decide)
    unfold readNumber intChars
    dsimp only
    split
    · next tail same => exact absurd same (first tail)
    · rw [readNumeral_toDigits false k ends]
      simp [bind, Except.bind, pure, Except.pure, Numeral.value?, Text.numberOf_toDigits, bound]
  | negSucc k =>
    have bound : k + 1 ≤ Nat.pow 2 63 := by
      have : (Nat.pow 2 63 : Nat) = 9223372036854775808 := by decide
      omega
    unfold readNumber intChars
    simp only [List.cons_append]
    rw [readNumeral_toDigits true (k + 1) ends]
    simp [bind, Except.bind, pure, Except.pure, Numeral.value?, Text.numberOf_toDigits, bound,
      Int.negSucc_eq]

/-! ## Numbers of any form -/

/-- What ends a number ends its digits. -/
theorem spanDigits_append (cs : List Char) {rest : List Char} (ends : EndsNumber rest) :
    spanDigits (cs ++ rest) = ((spanDigits cs).1, (spanDigits cs).2 ++ rest) := by
  have stops : rest.takeWhile Char.isDigit = [] ∧ rest.dropWhile Char.isDigit = rest := by
    cases rest with
    | nil => exact ⟨rfl, rfl⟩
    | cons c rest => simp [ends.1]
  unfold spanDigits
  induction cs with
  | nil => simp [stops]
  | cons c cs ih =>
    by_cases digit : c.isDigit = true
    · simp only [Prod.mk.injEq] at ih
      simp [digit, ih]
    · simp [digit]

theorem readFraction_point (cs : List Char) :
    readFraction ('.' :: cs) =
      if (spanDigits cs).1 = [] then .error (spanDigits cs).2
      else .ok (some (spanDigits cs).1, (spanDigits cs).2) := by
  simp only [readFraction]
  cases spanDigits cs with
  | mk digits rest => cases digits <;> rfl

theorem readFraction_append {cs after rest : List Char} {fraction : Option (List Char)}
    (ends : EndsNumber rest) (h : readFraction cs = .ok (fraction, after)) :
    readFraction (cs ++ rest) = .ok (fraction, after ++ rest) := by
  by_cases point : ∃ tail, cs = '.' :: tail
  · obtain ⟨tail, rfl⟩ := point
    rw [List.cons_append, readFraction_point, spanDigits_append tail ends]
    rw [readFraction_point] at h
    split at h
    · cases h
    · next some =>
      cases h
      exact if_neg some
  · unfold readFraction at h
    split at h
    · next tail => exact absurd ⟨tail, rfl⟩ point
    cases h
    cases cs with
    | nil => exact readFraction_ended ends
    | cons c cs =>
      unfold readFraction
      split
      · next shape =>
        cases shape
        exact absurd ⟨cs, rfl⟩ point
      · rfl

/-- Whether an exponent is negative, and what follows its sign. -/
def afterSign : List Char → Bool × List Char
  | [] => (false, [])
  | c :: cs => if c = '+' then (false, cs) else if c = '-' then (true, cs) else (false, c :: cs)

theorem readExponent_mark {c : Char} (mark : c = 'e' ∨ c = 'E') (cs : List Char) :
    readExponent (c :: cs) =
      if (spanDigits (afterSign cs).2).1 = [] then .error (spanDigits (afterSign cs).2).2
      else .ok (some ((afterSign cs).1, (spanDigits (afterSign cs).2).1),
        (spanDigits (afterSign cs).2).2) := by
  have marked : (decide (c = 'e') || decide (c = 'E')) = true := by simpa using mark
  cases cs with
  | nil =>
    simp only [readExponent, marked, if_true]
    rfl
  | cons d ds =>
    by_cases plus : d = '+'
    · have here : afterSign (d :: ds) = (false, ds) := by simp [afterSign, plus]
      rw [here, plus]
      simp only [readExponent, marked, if_true]
      cases spanDigits ds with
      | mk digits rest => cases digits <;> rfl
    · by_cases minus : d = '-'
      · have here : afterSign (d :: ds) = (true, ds) := by simp [afterSign, minus]
        rw [here, minus]
        simp only [readExponent, marked, if_true]
        cases spanDigits ds with
        | mk digits rest => cases digits <;> rfl
      · have here : afterSign (d :: ds) = (false, d :: ds) := by simp [afterSign, plus, minus]
        rw [here]
        simp only [readExponent, marked, if_true]
        cases spanned : spanDigits (d :: ds) with
        | mk digits rest => cases digits <;> simp [plus, minus, spanned]

theorem afterSign_append {cs rest : List Char} (digits : (spanDigits (afterSign cs).2).1 ≠ []) :
    afterSign (cs ++ rest) = ((afterSign cs).1, (afterSign cs).2 ++ rest) := by
  cases cs with
  | nil => exact absurd rfl digits
  | cons c cs =>
    rw [List.cons_append]
    simp only [afterSign]
    split
    · rfl
    · split <;> rfl

theorem readExponent_append {cs after rest : List Char} {exponent : Option (Bool × List Char)}
    (ends : EndsNumber rest) (h : readExponent cs = .ok (exponent, after)) :
    readExponent (cs ++ rest) = .ok (exponent, after ++ rest) := by
  cases cs with
  | nil =>
    cases h
    exact readExponent_ended ends
  | cons c cs =>
    rw [List.cons_append]
    by_cases mark : c = 'e' ∨ c = 'E'
    · rw [readExponent_mark mark] at h ⊢
      split at h
      · cases h
      · next digits =>
        cases h
        rw [afterSign_append digits, spanDigits_append _ ends]
        exact if_neg digits
    · have unmarked : ¬ (decide (c = 'e') || decide (c = 'E')) = true := by simpa using mark
      unfold readExponent at h ⊢
      dsimp only at h ⊢
      rw [if_neg unmarked] at h ⊢
      cases h
      rfl

theorem readNumeral_append {negative : Bool} {cs after rest : List Char} {numeral : Numeral}
    (ends : EndsNumber rest) (h : readNumeral negative cs = .ok (numeral, after)) :
    readNumeral negative (cs ++ rest) = .ok (numeral, after ++ rest) := by
  unfold readNumeral at h ⊢
  rw [spanDigits_append cs ends]
  generalize spanDigits cs = parts at h ⊢
  obtain ⟨whole, behind⟩ := parts
  dsimp only at h ⊢
  split at h
  · cases h
  · cases h
  · next whole' behind' empty padded same =>
    cases same
    simp only [bind, Except.bind] at h
    cases fraction : readFraction behind with
    | error stopped =>
      rw [fraction] at h
      cases h
    | ok read =>
      rw [fraction] at h
      dsimp only at h
      cases exponent : readExponent read.2 with
      | error stopped =>
        rw [exponent] at h
        cases h
      | ok last =>
        rw [exponent] at h
        cases h
        simp only [bind, Except.bind, readFraction_append ends fraction,
          readExponent_append ends exponent]
        rfl

theorem readNumber_minus (cs : List Char) :
    readNumber ('-' :: cs) =
      (readNumeral true cs).map fun (numeral, rest) => (numeral.value?, rest) := by
  simp only [readNumber, bind, Except.bind]
  cases readNumeral true cs <;> rfl

theorem readNumber_of_head {cs : List Char} (h : cs.head? ≠ some '-') :
    readNumber cs =
      (readNumeral false cs).map fun (numeral, rest) => (numeral.value?, rest) := by
  cases cs with
  | nil => rfl
  | cons c cs =>
    have other : c ≠ '-' := fun same => h (congrArg some same)
    cases read : readNumeral false (c :: cs) <;>
      simp [readNumber, bind, Except.bind, other, read, Except.map, pure, Except.pure]

theorem head_of_readNumber {cs rest : List Char} {n : Option Number}
    (h : readNumber cs = .ok (n, rest)) :
    ∃ c tail, cs = c :: tail ∧ (c.isDigit = true ∨ c = '-') := by
  cases cs with
  | nil => cases h
  | cons c cs =>
    refine ⟨c, cs, rfl, ?_⟩
    by_contra neither
    obtain ⟨digit, minus⟩ := not_or.mp neither
    have first : (c :: cs).head? ≠ some '-' := by simpa using minus
    rw [readNumber_of_head first] at h
    simp [readNumeral, spanDigits, digit, Except.map] at h

/-- A number that is all of a text is read, whatever stands behind it that ends it. -/
theorem readNumber_append {cs rest : List Char} {n : Option Number}
    (h : readNumber cs = .ok (n, [])) (ends : EndsNumber rest) :
    readNumber (cs ++ rest) = .ok (n, rest) := by
  obtain ⟨c, cs, rfl, -⟩ := head_of_readNumber h
  rw [List.cons_append]
  by_cases minus : c = '-'
  · subst minus
    rw [readNumber_minus] at h ⊢
    cases read : readNumeral true cs with
    | error => rw [read] at h; cases h
    | ok parts =>
      rw [read] at h
      obtain ⟨numeral, after⟩ := parts
      cases h
      rw [readNumeral_append ends read]
      rfl
  · have first (cs : List Char) : (c :: cs).head? ≠ some '-' := by simpa using minus
    rw [readNumber_of_head (first _)] at h ⊢
    cases read : readNumeral false (c :: cs) with
    | error => rw [read] at h; cases h
    | ok parts =>
      rw [read] at h
      obtain ⟨numeral, after⟩ := parts
      cases h
      rw [← List.cons_append, readNumeral_append ends read]
      rfl

end Json

end FleetControl
