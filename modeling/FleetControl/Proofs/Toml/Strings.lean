import FleetControl.Toml.Writer
import Mathlib.Tactic.Common

/-!
# TOML strings are read as they were written

What is proved:

1. `escapeChar_cases`: a character is written as itself or as an escape that stands for it.
2. `readBasic_escaped` and `readLiteral_plain`: the content of a form on one line is read back up to
   its closing quote.
3. `readMultiline_written`: so is the content of a form of three quotes. `Written` says how such
   content comes about: pieces that show one character, and quotes of which no more than two stand in
   a row. Quotes before the end are counted into the run that closes it, which is why the induction
   carries the quotes that were passed.
4. `readString_quoted`: a string is read back from its written form, whichever that is, if the text
   behind it does not go on with a quote.
-/

namespace FleetControl.Toml

/-! ## Escapes -/

theorem readCode_digits {code : List Char}
    (digits : (code.all fun c => (Text.digitValue? c).isSome) = true)
    (valid : (Text.numberOf 16 code).isValidChar) (tail : List Char) :
    readCode code.length (code ++ tail) = some (Char.ofNat (Text.numberOf 16 code), tail) := by
  unfold readCode
  rw [List.take_left, List.drop_left]
  dsimp only
  rw [if_neg (by simp [digits]), dif_pos valid, Char.ofNat, dif_pos valid]

theorem readCode_control {n : Nat} (small : n < 128) (tail : List Char) :
    readCode 4 ('0' :: '0' :: Text.upperDigit (n / 16) :: Text.upperDigit (n % 16) :: tail) =
      some (Char.ofNat n, tail) := by
  have code : ∀ n < 128, n.isValidChar ∧
      Text.numberOf 16 ['0', '0', Text.upperDigit (n / 16), Text.upperDigit (n % 16)] = n ∧
      (['0', '0', Text.upperDigit (n / 16), Text.upperDigit (n % 16)].all
        fun c => (Text.digitValue? c).isSome) = true := by
    decide
  obtain ⟨valid, number, digits⟩ := code n small
  have read := readCode_digits digits (number.symm ▸ valid) tail
  rw [number] at read
  exact read

/-- An escape, without its backslash, that stands for a character, whatever stands behind it. -/
def Escapes (name : List Char) (c : Char) : Prop :=
  ∀ tail, readEscape (name ++ tail) = some (c, tail)

/-- A character is written as itself or as an escape. As itself it is plain, or the line end of a
wide form. -/
theorem escapeChar_cases (wide : Bool) (c : Char) :
    (escapeChar wide c = [c] ∧ c ≠ '\\' ∧ (isPlain c = true ∨ wide = true ∧ c = '\n')) ∨
      ∃ d name, escapeChar wide c = '\\' :: d :: name ∧ Escapes (d :: name) c ∧
        isGap d = false ∧ d ≠ '\n' ∧ d ≠ '\r' := by
  have named (d : Char) (shape : escapeChar wide c = ['\\', d]) (escapes : Escapes [d] c)
      (apart : isGap d = false ∧ d ≠ '\n' ∧ d ≠ '\r') :
      ∃ d name, escapeChar wide c = '\\' :: d :: name ∧ Escapes (d :: name) c ∧
        isGap d = false ∧ d ≠ '\n' ∧ d ≠ '\r' := ⟨d, [], shape, escapes, apart⟩
  by_cases back : c.toNat = 8
  · have same : c = Char.ofNat 8 := by rw [← back, Char.ofNat_toNat]
    subst same
    exact .inr (named 'b' rfl (fun _ => rfl) (by decide))
  by_cases tab : c = '\t'
  · subst tab
    exact .inr (named 't' rfl (fun _ => rfl) (by decide))
  by_cases line : c = '\n'
  · subst line
    cases wide with
    | true => exact .inl ⟨rfl, by decide, .inr ⟨rfl, rfl⟩⟩
    | false => exact .inr (named 'n' rfl (fun _ => rfl) (by decide))
  by_cases feed : c.toNat = 12
  · have same : c = Char.ofNat 12 := by rw [← feed, Char.ofNat_toNat]
    subst same
    exact .inr (named 'f' rfl (fun _ => rfl) (by decide))
  by_cases carriage : c = '\r'
  · subst carriage
    exact .inr (named 'r' rfl (fun _ => rfl) (by decide))
  by_cases backslash : c = '\\'
  · subst backslash
    exact .inr (named '\\' rfl (fun _ => rfl) (by decide))
  by_cases control : c.toNat < 0x20 ∨ c.toNat = 0x7F
  · refine .inr ⟨'u', ['0', '0', Text.upperDigit (c.toNat / 16), Text.upperDigit (c.toNat % 16)],
      by simp [escapeChar, back, tab, line, feed, carriage, backslash, control],
      fun tail => ?_, by decide⟩
    have read := readCode_control (n := c.toNat) (by omega) tail
    rw [Char.ofNat_toNat] at read
    exact read
  · refine .inl ⟨by simp [escapeChar, back, tab, line, feed, carriage, backslash, control],
      backslash, .inl ?_⟩
    obtain ⟨above, other⟩ := not_or.mp control
    simp [isPlain, other, Nat.not_lt.mp above]

/-! ## One line -/

theorem escaped_cons_quote {wide : Bool} {limit run : Nat} (full : limit ≤ run) (cs : List Char) :
    escaped wide limit run ('"' :: cs) = '\\' :: '"' :: escaped wide limit 0 cs := by
  simp [escaped, full]

theorem escaped_cons_run {wide : Bool} {limit run : Nat} (free : run < limit) (cs : List Char) :
    escaped wide limit run ('"' :: cs) = '"' :: escaped wide limit (run + 1) cs := by
  simp [escaped, Nat.not_le.mpr free]

theorem escaped_cons {wide : Bool} {limit run : Nat} {c : Char} (other : c ≠ '"') (cs : List Char) :
    escaped wide limit run (c :: cs) = escapeChar wide c ++ escaped wide limit 0 cs := by
  simp [escaped, other]

theorem readBasic_escaped (cs rest : List Char) {fuel : Nat}
    (enough : (escaped false 0 0 cs).length < fuel) :
    readBasic fuel (escaped false 0 0 cs ++ '"' :: rest) = some (cs, rest) := by
  induction cs generalizing fuel with
  | nil =>
    obtain ⟨fuel, rfl⟩ := Nat.exists_eq_succ_of_ne_zero (Nat.ne_of_gt (Nat.zero_lt_of_lt enough))
    rfl
  | cons c cs ih =>
    obtain ⟨fuel, rfl⟩ := Nat.exists_eq_succ_of_ne_zero (Nat.ne_of_gt (Nat.zero_lt_of_lt enough))
    by_cases quote : c = '"'
    · subst quote
      rw [escaped_cons_quote (Nat.le_refl 0)] at enough ⊢
      have later := @ih fuel (by simp only [List.length_cons] at enough; omega)
      simp [readBasic, readEscape, later]
    · rw [escaped_cons quote] at enough ⊢
      rcases escapeChar_cases false c with ⟨same, backslash, plain⟩ | ⟨d, name, shape, escapes, -⟩
      · rw [same] at enough ⊢
        have later := @ih fuel (by simp only [List.length_append, List.length_cons] at enough; omega)
        simp [readBasic, quote, backslash, plain.resolve_right (by simp), later]
      · rw [shape] at enough ⊢
        have later := @ih fuel (by simp only [List.length_append, List.length_cons] at enough; omega)
        have read := escapes (escaped false 0 0 cs ++ '"' :: rest)
        simp [readBasic] at read ⊢
        simp [read, later]

theorem readLiteral_plain {cs : List Char} (plain : ∀ c ∈ cs, isPlain c = true ∧ c ≠ '\'')
    (rest : List Char) : readLiteral (cs ++ '\'' :: rest) = some (cs, rest) := by
  have inner : (cs ++ '\'' :: rest).takeWhile (fun c => isPlain c && c != '\'') = cs := by
    rw [List.takeWhile_append_of_pos (by simpa using plain)]
    simp
  simp [readLiteral, inner]

/-! ## Several lines -/

/-- Whether a piece of text is read as one character in a form of three quotes, whatever stands
behind it. -/
structure Shows (quote : Char) (escapes : Bool) (piece : List Char) (c : Char) : Prop where
  begins : ∃ d ds, piece = d :: ds ∧ d ≠ quote ∧ (d = '\n' → c = '\n') ∧ d ≠ '\r'
  read : ∀ fuel tail, readMultiline quote escapes (fuel + 1) (piece ++ tail) =
    (readMultiline quote escapes fuel tail).map fun (more, rest) => (c :: more, rest)

/-- Whether content in a form of three quotes writes characters, when `run` quotes stand before it.
More than two quotes never stand in a row. -/
inductive Written (quote : Char) (escapes : Bool) : Nat → List Char → List Char → Prop
  | nil (run : Nat) : Written quote escapes run [] []
  | quote {run : Nat} {content cs : List Char} (few : run < 2)
    (later : Written quote escapes (run + 1) content cs) :
    Written quote escapes run (quote :: content) (quote :: cs)
  | shown {run : Nat} {piece content cs : List Char} {c : Char} (shows : Shows quote escapes piece c)
    (later : Written quote escapes 0 content cs) :
    Written quote escapes run (piece ++ content) (c :: cs)

variable {quote : Char} {escapes : Bool}

theorem takeWhile_quotes (n : Nat) {tail : List Char} (ends : tail.head? ≠ some quote) :
    (List.replicate n quote ++ tail).takeWhile (· == quote) = List.replicate n quote := by
  rw [List.takeWhile_append_of_pos (by simp)]
  cases tail with
  | nil => simp
  | cons d ds =>
    have other : d ≠ quote := by simpa using ends
    simp [other]

/-- A run of one or two quotes is content. -/
theorem readMultiline_run {n fuel : Nat} (few : n < 2) {tail : List Char}
    (ends : tail.head? ≠ some quote) :
    readMultiline quote escapes (fuel + 1) (List.replicate (n + 1) quote ++ tail) =
      (readMultiline quote escapes fuel tail).map fun (more, rest) =>
        (List.replicate (n + 1) quote ++ more, rest) := by
  have run := takeWhile_quotes (n + 1) ends
  have after : (List.replicate (n + 1) quote ++ tail).drop (n + 1) = tail := by simp
  have short : n + 1 < 3 := Nat.succ_lt_succ few
  rw [List.replicate_succ, List.cons_append] at run after ⊢
  simp only [readMultiline, if_true, run, List.length_cons, List.length_replicate, after, short]
  cases readMultiline quote escapes fuel tail <;> rfl

/-- A run of three to five quotes ends the content. -/
theorem readMultiline_end {n fuel : Nat} (few : n ≤ 2) {tail : List Char}
    (ends : tail.head? ≠ some quote) :
    readMultiline quote escapes (fuel + 1) (List.replicate (n + 3) quote ++ tail) =
      some (List.replicate n quote, tail) := by
  have run := takeWhile_quotes (n + 3) ends
  have after : (List.replicate (n + 3) quote ++ tail).drop (n + 3) = tail := by simp
  have long : ¬ n + 3 < 3 := by omega
  have short : n + 3 ≤ 5 := by omega
  have content : (List.replicate (n + 3) quote).drop 3 = List.replicate n quote := by simp
  rw [List.replicate_succ, List.cons_append] at run after ⊢
  rw [List.replicate_succ] at content
  simp only [readMultiline, if_true, run, List.length_cons, List.length_replicate, after, long,
    short, content, if_false]

theorem readMultiline_written {run fuel : Nat} {content cs rest : List Char}
    (written : Written quote escapes run content cs) (few : run ≤ 2)
    (ends : rest.head? ≠ some quote) (enough : run + content.length < fuel) :
    readMultiline quote escapes fuel
        (List.replicate run quote ++ content ++ List.replicate 3 quote ++ rest) =
      some (List.replicate run quote ++ cs, rest) := by
  induction written generalizing fuel with
  | nil run =>
    obtain ⟨fuel, rfl⟩ := Nat.exists_eq_succ_of_ne_zero (Nat.ne_of_gt (Nat.zero_lt_of_lt enough))
    have shape : List.replicate run quote ++ [] ++ List.replicate 3 quote ++ rest =
        List.replicate (run + 3) quote ++ rest := by
      rw [List.append_nil, List.replicate_append_replicate]
    rw [shape, List.append_nil]
    exact readMultiline_end few ends
  | @quote run content cs less later ih =>
    have read := @ih fuel less (by simp only [List.length_cons] at enough; omega)
    rw [List.replicate_succ'] at read
    simpa using read
  | @shown run piece content cs c shows later ih =>
    obtain ⟨d, ds, begins, other, -⟩ := shows.begins
    have length : content.length + 1 ≤ (piece ++ content).length := by
      rw [begins]
      simp only [List.length_append, List.length_cons]
      omega
    -- What stands behind the quotes is read in one step, and does not depend on them.
    have step (fuel : Nat) (enough : content.length < fuel) :
        readMultiline quote escapes (fuel + 1)
            (piece ++ (content ++ List.replicate 3 quote ++ rest)) = some (c :: cs, rest) := by
      have read := @ih fuel (Nat.zero_le 2) (by omega)
      rw [shows.read, show content ++ List.replicate 3 quote ++ rest =
        List.replicate 0 quote ++ content ++ List.replicate 3 quote ++ rest from rfl, read]
      rfl
    cases run with
    | zero =>
      obtain ⟨fuel, rfl⟩ := Nat.exists_eq_succ_of_ne_zero (Nat.ne_of_gt (Nat.zero_lt_of_lt enough))
      simpa using step fuel (by omega)
    | succ run =>
      obtain ⟨fuel, rfl⟩ : ∃ f, fuel = f + 2 := ⟨fuel - 2, by omega⟩
      have notQuote : (piece ++ (content ++ List.replicate 3 quote ++ rest)).head? ≠ some quote := by
        simp [begins, other]
      have shape : List.replicate (run + 1) quote ++ (piece ++ content) ++ List.replicate 3 quote ++
          rest = List.replicate (run + 1) quote ++
            (piece ++ (content ++ List.replicate 3 quote ++ rest)) := by simp
      rw [shape, readMultiline_run few notQuote, step fuel (by omega)]
      rfl

theorem shows_escape {d c : Char} {name : List Char} (stands : Escapes (d :: name) c)
    (apart : isGap d = false ∧ d ≠ '\n' ∧ d ≠ '\r') : Shows '"' true ('\\' :: d :: name) c := by
  refine ⟨⟨'\\', d :: name, rfl, by decide, by simp, by decide⟩, fun fuel tail => ?_⟩
  obtain ⟨gap, line, carriage⟩ := apart
  have read := stands tail
  have unfolded : foldedLine? (d :: name ++ tail) = none := by
    have begins : newline? (d :: (name ++ tail)) = none := by
      unfold newline?
      split <;> simp_all
    simp [foldedLine?, skipGap, gap, begins]
  have other : ¬ '\\' = '"' := by decide
  rw [List.cons_append] at unfolded read
  simp only [List.cons_append, readMultiline, other, if_false, decide_true, Bool.and_self, if_true,
    unfolded, read, Option.bind_eq_bind, Option.bind_some]
  cases readMultiline '"' true fuel tail <;> rfl

theorem shows_plain {c : Char} (other : c ≠ quote) (literal : escapes = true → c ≠ '\\')
    (plain : isPlain c = true ∨ c = '\n') : Shows quote escapes [c] c := by
  have carriage : c ≠ '\r' := by
    rintro rfl
    exact absurd plain (by decide)
  refine ⟨⟨c, [], rfl, other, id, carriage⟩, fun fuel tail => ?_⟩
  have stands : (escapes && decide (c = '\\')) = false := by
    cases escapes with
    | false => rfl
    | true => simpa using literal rfl
  have shown : (isPlain c || decide (c = '\n') ||
      decide (c = '\r') && decide (tail.head? = some '\n')) = true := by
    rcases plain with plain | plain <;> simp [plain]
  simp only [List.cons_append, List.nil_append, readMultiline, other, if_false, stands,
    Bool.false_eq_true, shown, if_true]
  cases readMultiline quote escapes fuel tail <;> rfl

theorem written_escaped (cs : List Char) (run : Nat) :
    Written '"' true run (escaped true 2 run cs) cs := by
  induction cs generalizing run with
  | nil => exact .nil run
  | cons c cs ih =>
    by_cases quote : c = '"'
    · subst quote
      by_cases few : run < 2
      · rw [escaped_cons_run few]
        exact .quote few (ih (run + 1))
      · rw [escaped_cons_quote (Nat.not_lt.mp few)]
        have shows : Shows '"' true ['\\', '"'] '"' := shows_escape (fun _ => rfl) (by decide)
        exact .shown shows (ih 0)
    · rw [escaped_cons quote]
      refine .shown ?_ (ih 0)
      rcases escapeChar_cases true c with ⟨same, backslash, plain⟩ | ⟨d, name, shape, stands, apart⟩
      · rw [same]
        exact shows_plain quote (fun _ => backslash) (plain.imp_right fun line => line.2)
      · rw [shape]
        exact shows_escape stands apart

/-- The content of a wide literal form, if it never has more than two quotes in a row. -/
theorem written_plain {cs : List Char} (plain : ∀ c ∈ cs, isPlain c = true ∨ c = '\n') {run : Nat}
    (few : longestRun '\'' run cs ≤ 2) : Written '\'' false run cs cs := by
  induction cs generalizing run with
  | nil => exact .nil run
  | cons c cs ih =>
    obtain ⟨first, later⟩ := List.forall_mem_cons.mp plain
    by_cases quote : c = '\''
    · subst quote
      simp only [longestRun, if_true, Nat.max_le] at few
      exact .quote few.1 (ih later few.2)
    · simp only [longestRun, quote, if_false] at few
      have shows : Shows '\'' false [c] c := shows_plain quote nofun first
      exact .shown shows (ih later few)

/-! ## Strings -/

theorem ne_of_longestRun {c : Char} {cs : List Char} {run : Nat} (none : longestRun c run cs = 0) :
    ∀ d ∈ cs, d ≠ c := by
  induction cs generalizing run with
  | nil => exact List.forall_mem_nil _
  | cons d cs ih =>
    by_cases same : d = c
    · simp [longestRun, same] at none
    · simp only [longestRun, same, if_false] at none
      exact List.forall_mem_cons.mpr ⟨same, ih none⟩

/-- Whether a text goes on without a quote. -/
def EndsString (rest : List Char) : Prop :=
  rest.head? ≠ some '"' ∧ rest.head? ≠ some '\''

theorem not_triple {q d : Char} {content rest tail : List Char} (begins : content.head? ≠ some q)
    (ends : rest.head? ≠ some q) : q :: content ++ q :: rest ≠ d :: d :: d :: tail := by
  intro same
  cases content with
  | nil =>
    simp only [List.cons_append, List.nil_append, List.cons.injEq] at same
    obtain ⟨rfl, -, after⟩ := same
    simp [after] at ends
  | cons c cs =>
    simp only [List.cons_append, List.cons.injEq] at same
    obtain ⟨rfl, second, -⟩ := same
    simp [second] at begins

theorem readString_line {q : Char} {content rest : List Char}
    (begins : content.head? ≠ some q) (ends : rest.head? ≠ some q) :
    readString (q :: content ++ q :: rest) = readLineString (q :: content ++ q :: rest) := by
  unfold readString
  split
  · next tail same => exact absurd same (not_triple begins ends)
  · next tail same => exact absurd same (not_triple begins ends)
  · rfl

theorem readString_basic (cs : List Char) {rest : List Char} (ends : EndsString rest) :
    readString ('"' :: escaped false 0 0 cs ++ '"' :: rest) = some (String.ofList cs, rest) := by
  have begins : (escaped false 0 0 cs).head? ≠ some '"' := by
    cases cs with
    | nil => simp [escaped]
    | cons c cs =>
      by_cases quote : c = '"'
      · subst quote
        simp [escaped_cons_quote (Nat.le_refl 0)]
      · rw [escaped_cons quote]
        rcases escapeChar_cases false c with ⟨same, -⟩ | ⟨d, name, shape, -⟩
        · simp [same, quote]
        · simp [shape]
  rw [readString_line begins ends.1]
  simp only [List.cons_append, readLineString]
  rw [readBasic_escaped cs rest (by simp only [List.length_append, List.length_cons]; omega)]
  rfl

theorem readString_literal {cs : List Char} (plain : ∀ c ∈ cs, isPlain c = true ∧ c ≠ '\'')
    {rest : List Char} (ends : EndsString rest) :
    readString ('\'' :: cs ++ '\'' :: rest) = some (String.ofList cs, rest) := by
  have begins : cs.head? ≠ some '\'' := by
    intro same
    exact (plain _ (List.mem_of_mem_head? same)).2 rfl
  rw [readString_line begins ends.2]
  simp only [List.cons_append, readLineString]
  rw [readLiteral_plain plain]
  rfl

theorem newline?_cons {c : Char} (line : c ≠ '\n') (carriage : c ≠ '\r') (cs : List Char) :
    newline? (c :: cs) = none := by
  unfold newline?
  split <;> simp_all

theorem Written.newline?_eq_none {content cs tail : List Char}
    (written : Written quote escapes 0 content cs) (form : quote = '"' ∨ quote = '\'')
    (line : '\n' ∉ cs) : newline? (content ++ quote :: tail) = none := by
  have quotes : quote ≠ '\n' ∧ quote ≠ '\r' := by
    rcases form with rfl | rfl <;> decide
  cases written with
  | nil => exact newline?_cons quotes.1 quotes.2 tail
  | quote few later => exact newline?_cons quotes.1 quotes.2 _
  | shown shows later =>
    obtain ⟨d, ds, rfl, -, same, carriage⟩ := shows.begins
    refine newline?_cons (fun newline => line ?_) carriage _
    rw [same newline]
    exact List.mem_cons_self

/-- A string of three quotes is read back. A line end after the opening quotes is not part of it; it
stands there if the string has several lines. -/
theorem readString_wide {content cs rest : List Char}
    (form : quote = '"' ∧ escapes = true ∨ quote = '\'' ∧ escapes = false)
    (written : Written quote escapes 0 content cs) (ends : rest.head? ≠ some quote) :
    readString (List.replicate 3 quote ++ (if cs.contains '\n' then ['\n'] else []) ++ content ++
      List.replicate 3 quote ++ rest) = some (String.ofList cs, rest) := by
  obtain ⟨first, same⟩ : ∃ first, first = if cs.contains '\n' then ['\n'] else [] := ⟨_, rfl⟩
  have opened : (newline? (first ++ (content ++ List.replicate 3 quote ++ rest))).getD
      (first ++ (content ++ List.replicate 3 quote ++ rest)) =
        content ++ List.replicate 3 quote ++ rest := by
    by_cases line : '\n' ∈ cs
    · simp [same, line, newline?]
    · have none := @Written.newline?_eq_none _ _ _ _ (quote :: quote :: rest) written
        (form.imp And.left And.left) line
      simp [same, line, List.replicate, none]
  have read := readMultiline_written written (Nat.zero_le 2) ends
    (show 0 + content.length < (content ++ List.replicate 3 quote ++ rest).length + 1 by
      simp only [List.length_append]
      omega)
  rw [List.replicate_zero, List.nil_append, List.nil_append] at read
  have shape : List.replicate 3 quote ++ first ++ content ++ List.replicate 3 quote ++ rest =
      quote :: quote :: quote :: (first ++ (content ++ List.replicate 3 quote ++ rest)) := by
    simp [List.replicate]
  rw [← same, shape]
  rcases form with ⟨rfl, rfl⟩ | ⟨rfl, rfl⟩
  · simp only [readString, opened, read]
    rfl
  · simp only [readString, opened, read]
    rfl

theorem plain_of_control {cs : List Char} (control : cs.any isControl = false) :
    ∀ c ∈ cs, isPlain c = true ∨ c = '\n' := by
  intro c member
  have free := List.any_eq_false.mp control c member
  simp only [isControl, isPlain, Bool.and_eq_true, Bool.or_eq_true, bne_iff_ne, beq_iff_eq,
    decide_eq_true_eq, ne_eq] at free ⊢
  by_cases tab : c = '\t'
  · exact .inl (.inl tab)
  by_cases line : c = '\n'
  · exact .inr line
  · refine .inl (.inr ?_)
    have free : ¬ (c.toNat < 0x20 ∨ c.toNat = 0x7F) := fun bad => free ⟨⟨tab, line⟩, bad⟩
    omega

namespace Form

/-- The characters of a form; a wide one begins a line of its own if it has several. -/
def chars (form : Form) (cs : List Char) : List Char :=
  form.quotes ++ (if form.wide && cs.contains '\n' then ['\n'] else []) ++
    (if form.basic then escaped form.wide (if form.wide then 2 else 0) 0 cs else cs) ++ form.quotes

theorem choose_cases (cs : List Char) :
    (choose (Traits.of cs)).basic = true ∨
      choose (Traits.of cs) = ⟨false, false⟩ ∧ (∀ c ∈ cs, isPlain c = true ∧ c ≠ '\'') ∨
      choose (Traits.of cs) = ⟨false, true⟩ ∧ (∀ c ∈ cs, isPlain c = true ∨ c = '\n') ∧
        longestRun '\'' 0 cs ≤ 2 := by
  unfold choose
  split
  · exact .inl rfl
  · split
    · next literal =>
      simp only [Traits.of, Bool.and_eq_true, Bool.not_eq_true'] at literal
      obtain ⟨⟨control, single⟩, line⟩ := literal
      have free := ne_of_longestRun (of_decide_eq_true single)
      refine .inr (.inl ⟨rfl, fun c member => ⟨?_, free c member⟩⟩)
      refine (plain_of_control control c member).resolve_right ?_
      rintro rfl
      simp [member] at line
    · split
      · exact .inl rfl
      · split
        · next literal =>
          simp only [Traits.of, Bool.and_eq_true, Bool.not_eq_true'] at literal
          exact .inr (.inr ⟨rfl, plain_of_control literal.1, of_decide_eq_true literal.2⟩)
        · exact .inl rfl

end Form

theorem toList_quoted (s : String) :
    (quoted s).toList = (Form.choose (Traits.of s.toList)).chars s.toList := by
  simp [quoted, Form.chars, Traits.of]

/-- A string is read back from its written form, whichever that is. -/
theorem readString_quoted (s : String) {rest : List Char} (ends : EndsString rest) :
    readString ((quoted s).toList ++ rest) = some (s, rest) := by
  rw [toList_quoted]
  obtain ⟨cs, same⟩ : ∃ cs, cs = s.toList := ⟨_, rfl⟩
  have whole : String.ofList cs = s := by rw [same, String.ofList_toList]
  rw [← same, ← whole]
  rcases Form.choose_cases cs with basic | ⟨literal, plain⟩ | ⟨literal, plain, few⟩
  · obtain ⟨wide, form⟩ : ∃ wide, Form.choose (Traits.of cs) = ⟨true, wide⟩ :=
      ⟨(Form.choose (Traits.of cs)).wide, by rw [← basic]⟩
    rw [form]
    cases wide with
    | false =>
      have read := readString_basic cs ends
      simpa [Form.chars, Form.quotes] using read
    | true =>
      have read := readString_wide (.inl ⟨rfl, rfl⟩) (written_escaped cs 0) ends.1
      simpa [Form.chars, Form.quotes] using read
  · rw [literal]
    have read := readString_literal plain ends
    simpa [Form.chars, Form.quotes] using read
  · rw [literal]
    have read := readString_wide (.inr ⟨rfl, rfl⟩) (written_plain plain few) ends.2
    simpa [Form.chars, Form.quotes] using read

end FleetControl.Toml
