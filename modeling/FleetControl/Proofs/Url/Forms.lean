import FleetControl.Url.Address

/-!
# What a server reads in a query

A query is read as a form: parts between `&`, each cut at its first `=`, a plus sign as a space and
a percent sign with two digits as a byte.

1. `formText_formEncode`: a text that was encoded is read back.
2. `formPairsOf_formPairs`: so are the pairs of a form, also behind another query
   (`formPairsOf_and`).
3. `Address.pairs_addPairs`: pairs that are put into an address are read after those that it has.
-/

namespace FleetControl

namespace Url

/-- The bytes that a part of a form stands for. -/
def formBytes : List Char → List UInt8
  | [] => []
  | '+' :: rest => 0x20 :: formBytes rest
  | '%' :: a :: b :: rest =>
    match Text.digitValue? a, Text.digitValue? b with
    | some high, some low => UInt8.ofNat (high * 16 + low) :: formBytes rest
    | _, _ => 0x25 :: formBytes (a :: b :: rest)
  | c :: rest => String.utf8EncodeChar c ++ formBytes rest

/-- The text that a part of a form stands for. -/
def formText (cs : List Char) : String :=
  Text.ofUtf8Lossy (formBytes cs)

/-- The name and the value of a part of a form; a part without `=` is a name. -/
def formPair (part : List Char) : String × String :=
  match Text.splitChars? '=' part with
  | some (name, value) => (formText name, formText value)
  | none => (formText part, "")

/-- The pairs of a query, empty parts left out. -/
def formPairsOf (query : List Char) : List (String × String) :=
  ((query.splitOn '&').filter fun part => !part.isEmpty).map formPair

/-! ## Texts -/

theorem formBytes_percentByte (b : UInt8) (rest : List Char) :
    formBytes (percentByte b ++ rest) = b :: formBytes rest := by
  have high := Text.digitValue?_upperDigit (b.toNat / 16) (by have := b.toNat_lt; omega)
  have low := Text.digitValue?_upperDigit (b.toNat % 16) (by omega)
  have whole : b.toNat / 16 * 16 + b.toNat % 16 = b.toNat := by omega
  unfold percentByte
  rw [List.cons_append, List.cons_append, List.cons_append, List.nil_append, formBytes, high, low]
  dsimp only
  rw [whole, UInt8.ofNat_toNat]

theorem formBytes_percentChar (c : Char) (rest : List Char) :
    formBytes (percentChar c ++ rest) = String.utf8EncodeChar c ++ formBytes rest := by
  unfold percentChar
  induction String.utf8EncodeChar c with
  | nil => rfl
  | cons b bytes ih =>
    rw [List.flatMap_cons, List.append_assoc, formBytes_percentByte, ih, List.cons_append]

theorem formBytes_formEncode (s : String) : formBytes (formEncode s) = Text.utf8 s := by
  unfold formEncode Text.utf8
  induction s.toList with
  | nil => rfl
  | cons c cs ih =>
    rw [List.flatMap_cons, List.flatMap_cons, ← ih]
    split
    · next space =>
      subst space
      rfl
    · split
      · next plain =>
        -- neither sign that means something else is left as it is
        have notPlus : c ≠ '+' := by rintro rfl; revert plain; decide
        have notPercent : c ≠ '%' := by rintro rfl; revert plain; decide
        exact formBytes.eq_4 c _ notPlus fun _ _ _ percent _ => notPercent percent
      · exact formBytes_percentChar c _

theorem formText_formEncode (s : String) : formText (formEncode s) = s := by
  unfold formText
  rw [formBytes_formEncode, Text.ofUtf8Lossy_utf8]

/-! ## Pairs -/

def formPart (pair : String × String) : List Char :=
  formEncode pair.1 ++ '=' :: formEncode pair.2

theorem formPair_formPart (pair : String × String) : formPair (formPart pair) = pair := by
  unfold formPair formPart
  rw [Text.splitChars?_append (not_mem_formEncode pair.1).2]
  dsimp only
  rw [formText_formEncode, formText_formEncode]

theorem not_mem_formPart (pair : String × String) : '&' ∉ formPart pair := by
  unfold formPart
  rw [List.mem_append, List.mem_cons]
  rintro (name | sign | value)
  · exact (not_mem_formEncode pair.1).1 name
  · exact absurd sign (by decide)
  · exact (not_mem_formEncode pair.2).1 value

theorem formPairsOf_part {part : List Char} (whole : '&' ∉ part) (filled : part ≠ []) :
    formPairsOf part = [formPair part] := by
  have one : part.splitOn '&' = [part] :=
    List.splitOnP_eq_singleton fun c hc => beq_eq_false_iff_ne.mpr fun same => whole (same ▸ hc)
  unfold formPairsOf
  rw [one, List.filter_cons_of_pos (by simpa using filled)]
  rfl

theorem formPairsOf_and (xs ys : List Char) :
    formPairsOf (xs ++ '&' :: ys) = formPairsOf xs ++ formPairsOf ys := by
  have parts : (xs ++ '&' :: ys).splitOn '&' = xs.splitOn '&' ++ ys.splitOn '&' :=
    List.splitOnP_append_cons xs ys (beq_self_eq_true '&')
  unfold formPairsOf
  rw [parts, List.filter_append, List.map_append]

theorem formPairsOf_formPairs (pairs : List (String × String)) :
    formPairsOf (formPairs pairs) = pairs := by
  have filled (pair : String × String) : formPart pair ≠ [] :=
    List.append_ne_nil_of_right_ne_nil _ (List.cons_ne_nil _ _)
  have one (pair : String × String) : formPairsOf (formPart pair) = [pair] := by
    rw [formPairsOf_part (not_mem_formPart pair) (filled pair), formPair_formPart]
  induction pairs with
  | nil => rfl
  | cons pair rest ih =>
    cases rest with
    | nil => exact one pair
    | cons next more =>
      have written : formPairs (pair :: next :: more) =
          formPart pair ++ '&' :: formPairs (next :: more) := rfl
      rw [written, formPairsOf_and, one, ih]
      rfl

end Url

namespace Address

/-- The pairs that a server reads in the query of an address. -/
def pairs (address : Address) : List (String × String) :=
  Url.formPairsOf (address.query.getD [])

/-- Pairs are put into the query alone, after those that it has. -/
theorem pairs_addPairs (address : Address) (more : List (String × String)) :
    (address.addPairs more).pairs = address.pairs ++ more := by
  have read := Url.formPairsOf_formPairs more
  unfold pairs addPairs
  match address.query with
  | none => exact read
  | some [] => exact read
  | some (c :: query) =>
    exact (Url.formPairsOf_and (c :: query) _).trans
      (congrArg (Url.formPairsOf (c :: query) ++ ·) read)

end Address

end FleetControl
