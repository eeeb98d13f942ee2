import FleetControl.Text.Blank
import FleetControl.Text.Bytes
import FleetControl.Text.Digits

/-!
# Percent encoding

A character outside a set of its own is written byte by byte, each as `%` and two hexadecimal
digits.

1. `percentEncode` is the encoding under a set; `inPath`, `inQuery` and `inFragment` are the sets of
   the parts of an address.
2. `formEncode` is the encoding of a form, where a space becomes `+`.
3. `formPairs` writes the pairs of a form.
-/

namespace FleetControl.Url

def percentByte (b : UInt8) : List Char :=
  ['%', Text.upperDigit (b.toNat / 16), Text.upperDigit (b.toNat % 16)]

def percentChar (c : Char) : List Char :=
  (String.utf8EncodeChar c).flatMap percentByte

/-- The characters of a text, those outside a set encoded. -/
def percentEncode (keeps : Char → Bool) (cs : List Char) : List Char :=
  cs.flatMap fun c => if keeps c then [c] else percentChar c

/-- Whether a character is printable ASCII other than a space. -/
def isGraphic (c : Char) : Bool :=
  0x21 ≤ c.toNat && c.toNat ≤ 0x7E

def inFragment (c : Char) : Bool :=
  isGraphic c && !(c == '"' || c == '<' || c == '>' || c == Char.ofNat 0x60)

def inPath (c : Char) : Bool :=
  inFragment c && !(c == '#' || c == '?' || c == Char.ofNat 0x7B || c == Char.ofNat 0x7D)

def inQuery (c : Char) : Bool :=
  isGraphic c && !(c == '"' || c == '<' || c == '>' || c == '#' || c == Char.ofNat 0x27)

def inForm (c : Char) : Bool :=
  c.isAlphanum || c == '*' || c == '-' || c == '.' || c == '_'

def formEncode (s : String) : List Char :=
  s.toList.flatMap fun c => if c = ' ' then ['+'] else if inForm c then [c] else percentChar c

/-- The pairs of a form, with `&` between them. -/
def formPairs : List (String × String) → List Char
  | [] => []
  | [(key, value)] => formEncode key ++ '=' :: formEncode value
  | (key, value) :: rest => formEncode key ++ '=' :: formEncode value ++ '&' :: formPairs rest

/-! ## Small lemmas -/

/-- No separator of a form occurs in an encoded text. -/
theorem not_mem_formEncode (s : String) : '&' ∉ formEncode s ∧ '=' ∉ formEncode s := by
  have digits : ∀ b : UInt8, '&' ∉ percentByte b ∧ '=' ∉ percentByte b := by
    intro b
    have hex : ∀ n : Fin 16, Text.upperDigit n ≠ '&' ∧ Text.upperDigit n ≠ '=' := by decide
    have h₁ := hex ⟨b.toNat / 16, by have := b.toNat_lt; omega⟩
    have h₂ := hex ⟨b.toNat % 16, by omega⟩
    simp only [percentByte, List.mem_cons, List.not_mem_nil, or_false, not_or]
    exact ⟨⟨by decide, h₁.1.symm, h₂.1.symm⟩, ⟨by decide, h₁.2.symm, h₂.2.symm⟩⟩
  have chars : ∀ c, '&' ∉ percentChar c ∧ '=' ∉ percentChar c := by
    intro c
    simp only [percentChar, List.mem_flatMap, not_exists, not_and]
    exact ⟨fun b _ => (digits b).1, fun b _ => (digits b).2⟩
  have each : ∀ c ∈ s.toList, ∀ d, (d = '&' ∨ d = '=') →
      d ∉ (if c = ' ' then ['+'] else if inForm c then [c] else percentChar c) := by
    intro c _ d hd
    split
    · rcases hd with rfl | rfl <;> decide
    · split
      · rename_i h
        intro hmem
        simp only [List.mem_singleton] at hmem
        subst hmem
        rcases hd with rfl | rfl <;> revert h <;> decide
      · rcases hd with rfl | rfl
        · exact (chars c).1
        · exact (chars c).2
  simp only [formEncode, List.mem_flatMap, not_exists, not_and]
  exact ⟨fun c hc => each c hc _ (Or.inl rfl), fun c hc => each c hc _ (Or.inr rfl)⟩

end FleetControl.Url
