import FleetControl.Proofs.Json.Tokens

/-!
# JSON is read as it was written

What is proved:

1. `Layout` is where a writer may put blanks, and `Layout.chars` writes a value with them. The two
   writers are the layouts `Layout.pretty` and `Layout.compact` (`prettyChars_eq`,
   `compactChars_eq`).
2. `readTree_chars`: what is written in any layout is read back as the tree of the value, whatever
   stands behind it. It is one induction over the value with its items and its pairs; below it are
   the single steps of the reader, which depend on a text only after its blanks (`readTree_congr`).
3. `Tree.parse_pretty` and `Tree.parse_compact` are the two whole texts.

All of this is about values whose numbers are legible (`Json.Legible`): the integers are read as
integers, and a double is what its own text is read as. Not every double is, since the reader does
not round to the nearest one. The values without doubles are `Json.Plain`.
-/

namespace FleetControl.Json

mutual
/-- Whether every number of a value is an integer that is read as an integer. -/
def Plain : Json → Prop
  | .int n => InRange n
  | .float _ => False
  | .array items => PlainItems items
  | .object fields => PlainFields fields
  | _ => True

def PlainItems : List Json → Prop
  | [] => True
  | item :: rest => item.Plain ∧ PlainItems rest

def PlainFields : List (String × Json) → Prop
  | [] => True
  | (_, value) :: rest => value.Plain ∧ PlainFields rest
end

/-- Whether a double is read back from the text that is written for it. -/
def IsLegible (x : Binary64) : Prop :=
  readNumber (DecimalStyle.scientific.render x) = .ok (some (.float x), [])

instance : DecidablePred IsLegible := fun x =>
  inferInstanceAs (Decidable (readNumber (DecimalStyle.scientific.render x) = _))

mutual
/-- Whether every number of a value is read back from the text that is written for it. -/
def Legible : Json → Prop
  | .int n => InRange n
  | .float x => IsLegible x
  | .array items => LegibleItems items
  | .object fields => LegibleFields fields
  | _ => True

def LegibleItems : List Json → Prop
  | [] => True
  | item :: rest => item.Legible ∧ LegibleItems rest

def LegibleFields : List (String × Json) → Prop
  | [] => True
  | (_, value) :: rest => value.Legible ∧ LegibleFields rest
end

mutual
theorem Plain.legible : ∀ {v : Json}, v.Plain → v.Legible
  | .null, _ | .bool _, _ | .string _, _ => trivial
  | .int _, range => range
  | .float _, illegible => False.elim illegible
  | .array _, plain => legibleItems_of_plain plain
  | .object _, plain => legibleFields_of_plain plain

theorem legibleItems_of_plain : ∀ {items : List Json}, PlainItems items → LegibleItems items
  | [], _ => trivial
  | _ :: _, plain => ⟨plain.1.legible, legibleItems_of_plain plain.2⟩

theorem legibleFields_of_plain : ∀ {fields : List (String × Json)}, PlainFields fields →
    LegibleFields fields
  | [], _ => trivial
  | _ :: _, plain => ⟨plain.1.legible, legibleFields_of_plain plain.2⟩
end

/-- One and a half is legible; the double that `1e-30` is read as is not. -/
example : IsLegible ⟨false, 6755399441055744, -52⟩ ∧
    ¬ IsLegible ⟨false, 5708990770823839, -152⟩ := by
  decide +kernel

/-! ## Blanks -/

def IsBlank (cs : List Char) : Prop :=
  ∀ c ∈ cs, isSpace c = true

theorem skipSpace_blank {blank : List Char} (h : IsBlank blank) (cs : List Char) :
    skipSpace (blank ++ cs) = skipSpace cs :=
  List.dropWhile_append_of_pos h

theorem skipSpace_cons {c : Char} (h : isSpace c = false) (cs : List Char) :
    skipSpace (c :: cs) = c :: cs := by
  simp [skipSpace, h]

theorem skipSpace_skipSpace (cs : List Char) : skipSpace (skipSpace cs) = skipSpace cs := by
  unfold skipSpace
  induction cs with
  | nil => rfl
  | cons c cs ih => by_cases h : isSpace c = true <;> simp [h, ih]

theorem endsNumber_cons {c : Char} (h : c.isDigit = false ∧ c ≠ '.' ∧ c ≠ 'e' ∧ c ≠ 'E')
    (cs : List Char) : EndsNumber (c :: cs) :=
  h

theorem endsNumber_space {c : Char} (space : isSpace c = true) (cs : List Char) :
    EndsNumber (c :: cs) := by
  simp only [isSpace, Bool.or_eq_true, beq_iff_eq] at space
  rcases space with ((rfl | rfl) | rfl) | rfl <;> exact endsNumber_cons (by decide) cs

theorem endsNumber_blank {blank cs : List Char} (h : IsBlank blank) (ends : EndsNumber cs) :
    EndsNumber (blank ++ cs) := by
  cases blank with
  | nil => exact ends
  | cons b blank => exact endsNumber_space (h b List.mem_cons_self) _

/-! ## Layouts -/

/-- Where a writer puts blanks: before each element of a level, and after a colon. -/
structure Layout where
  gap : Nat → List Char
  colon : List Char
  gap_blank : ∀ level, IsBlank (gap level)
  colon_blank : IsBlank colon

namespace Layout

variable (l : Layout)

mutual
/-- The characters of a value whose first line stands at a level. -/
def chars (level : Nat) : Json → List Char
  | .array [] => ['[', ']']
  | .array (item :: rest) => '[' :: items (level + 1) (item :: rest)
  | .object [] => ['{', '}']
  | .object (kv :: rest) => '{' :: fields (level + 1) (kv :: rest)
  | value => scalarChars value

/-- The items of an array up to and with the closing bracket. -/
def items (level : Nat) : List Json → List Char
  | [] => l.gap (level - 1) ++ [']']
  | [item] => l.gap level ++ chars level item ++ l.gap (level - 1) ++ [']']
  | item :: next :: rest => l.gap level ++ chars level item ++ ',' :: items level (next :: rest)

/-- The pairs of an object up to and with the closing brace. -/
def fields (level : Nat) : List (String × Json) → List Char
  | [] => l.gap (level - 1) ++ ['}']
  | [(key, value)] =>
    l.gap level ++ quoted key ++ ':' :: l.colon ++ chars level value ++ l.gap (level - 1) ++ ['}']
  | (key, value) :: next :: rest =>
    l.gap level ++ quoted key ++ ':' :: l.colon ++ chars level value ++
      ',' :: fields level (next :: rest)
end

def pretty : Layout where
  gap := newline
  colon := [' ']
  gap_blank level c hc := by
    rcases List.mem_cons.mp hc with rfl | hc
    · rfl
    · rw [List.eq_of_mem_replicate hc]
      rfl
  colon_blank := by simp [IsBlank, isSpace]

def compact : Layout where
  gap _ := []
  colon := []
  gap_blank _ := List.forall_mem_nil _
  colon_blank := List.forall_mem_nil _

end Layout

mutual
theorem prettyChars_eq : ∀ (level : Nat) (v : Json), prettyChars level v = Layout.pretty.chars level v
  | _, .null | _, .bool _ | _, .int _ | _, .float _ | _, .string _ => rfl
  | _, .array [] | _, .object [] => rfl
  | level, .array (item :: rest) => by
    simp only [prettyChars, Layout.chars, prettyItems_eq (level + 1) (item :: rest)]
  | level, .object (kv :: rest) => by
    simp only [prettyChars, Layout.chars, prettyFields_eq (level + 1) (kv :: rest)]

theorem prettyItems_eq : ∀ (level : Nat) (items : List Json),
    prettyItems level items = Layout.pretty.items level items
  | _, [] => rfl
  | level, [item] => by
    simp only [prettyItems, Layout.items, prettyChars_eq level item]
    rfl
  | level, item :: next :: rest => by
    simp only [prettyItems, Layout.items, prettyChars_eq level item,
      prettyItems_eq level (next :: rest)]
    rfl

theorem prettyFields_eq : ∀ (level : Nat) (fields : List (String × Json)),
    prettyFields level fields = Layout.pretty.fields level fields
  | _, [] => rfl
  | level, [(key, value)] => by
    simp only [prettyFields, Layout.fields, prettyChars_eq level value]
    simp [Layout.pretty]
  | level, (key, value) :: next :: rest => by
    simp only [prettyFields, Layout.fields, prettyChars_eq level value,
      prettyFields_eq level (next :: rest)]
    simp [Layout.pretty]
end

mutual
theorem compactChars_eq : ∀ (level : Nat) (v : Json), compactChars v = Layout.compact.chars level v
  | _, .null | _, .bool _ | _, .int _ | _, .float _ | _, .string _ => rfl
  | _, .array [] | _, .object [] => rfl
  | level, .array (item :: rest) => by
    simp only [compactChars, Layout.chars, compactItems_eq (level + 1) (item :: rest)]
  | level, .object (kv :: rest) => by
    simp only [compactChars, Layout.chars, compactFields_eq (level + 1) (kv :: rest)]

theorem compactItems_eq : ∀ (level : Nat) (items : List Json),
    compactItems items = Layout.compact.items level items
  | _, [] => rfl
  | level, [item] => by
    simp only [compactItems, Layout.items, compactChars_eq level item]
    simp [Layout.compact]
  | level, item :: next :: rest => by
    simp only [compactItems, Layout.items, compactChars_eq level item,
      compactItems_eq level (next :: rest)]
    rfl

theorem compactFields_eq : ∀ (level : Nat) (fields : List (String × Json)),
    compactFields fields = Layout.compact.fields level fields
  | _, [] => rfl
  | level, [(key, value)] => by
    simp only [compactFields, Layout.fields, compactChars_eq level value]
    simp [Layout.compact]
  | level, (key, value) :: next :: rest => by
    simp only [compactFields, Layout.fields, compactChars_eq level value,
      compactFields_eq level (next :: rest)]
    simp [Layout.compact]
end

/-! ## Steps of the reader -/

theorem readTree_congr (fuel : Nat) {cs ds : List Char} (h : skipSpace cs = skipSpace ds) :
    readTree (fuel + 1) cs = readTree (fuel + 1) ds := by
  unfold readTree
  rw [h]

theorem readItems_congr (fuel : Nat) {cs ds : List Char} (h : skipSpace cs = skipSpace ds) :
    readItems (fuel + 2) cs = readItems (fuel + 2) ds := by
  unfold readItems
  rw [readTree_congr fuel h]

theorem readFields_congr (fuel : Nat) {cs ds : List Char} (h : skipSpace cs = skipSpace ds) :
    readFields (fuel + 1) cs = readFields (fuel + 1) ds := by
  unfold readFields
  rw [h]

theorem readTree_bracket (fuel : Nat) (cs : List Char) :
    readTree (fuel + 3) ('[' :: cs) =
      match skipSpace cs with
      | ']' :: rest => .ok (.array [], rest)
      | rest => (readItems (fuel + 2) rest).map fun (items, rest) => (.array items, rest) := by
  unfold readTree
  rw [skipSpace_cons (by decide)]
  rfl

theorem readTree_array (fuel : Nat) {cs : List Char} (first : ∀ ds, skipSpace cs ≠ ']' :: ds) :
    readTree (fuel + 3) ('[' :: cs) =
      (readItems (fuel + 2) cs).map fun (items, rest) => (.array items, rest) := by
  rw [readTree_bracket]
  split
  · next ds h => exact absurd h (first ds)
  · rw [readItems_congr fuel (skipSpace_skipSpace cs)]

theorem readTree_brace (fuel : Nat) (cs : List Char) :
    readTree (fuel + 2) ('{' :: cs) =
      match skipSpace cs with
      | '}' :: rest => .ok (.object [], rest)
      | rest => (readFields (fuel + 1) rest).map fun (fields, rest) => (.object fields, rest) := by
  unfold readTree
  rw [skipSpace_cons (by decide)]
  rfl

theorem readTree_object (fuel : Nat) {cs : List Char} (first : ∀ ds, skipSpace cs ≠ '}' :: ds) :
    readTree (fuel + 2) ('{' :: cs) =
      (readFields (fuel + 1) cs).map fun (fields, rest) => (.object fields, rest) := by
  rw [readTree_brace]
  split
  · next ds h => exact absurd h (first ds)
  · rw [readFields_congr fuel (skipSpace_skipSpace cs)]

theorem readTree_string (fuel : Nat) (s : String) (rest : List Char) :
    readTree (fuel + 1) (quoted s ++ rest) = .ok (.string (some s), rest) := by
  have shape : quoted s ++ rest = '"' :: (s.toList.flatMap escapeChar ++ '"' :: rest) := by
    simp [quoted]
  unfold readTree
  rw [shape, skipSpace_cons (by decide)]
  simp [readString_escaped, bind, Except.bind, pure, Except.pure]

def StartsInteger (c : Char) : Prop :=
  c.isDigit = true ∨ c = '-'

instance : DecidablePred StartsInteger := fun c =>
  inferInstanceAs (Decidable (c.isDigit = true ∨ c = '-'))

theorem StartsInteger.not_space {c : Char} (start : StartsInteger c) : isSpace c = false := by
  rw [Bool.eq_false_iff]
  intro space
  simp only [isSpace, Bool.or_eq_true, beq_iff_eq] at space
  rcases space with ((rfl | rfl) | rfl) | rfl <;> exact absurd start (by decide)

theorem head_intChars (n : Int) : ∃ c cs, intChars n = c :: cs ∧ StartsInteger c := by
  cases n with
  | ofNat k =>
    obtain ⟨c, cs, shape⟩ := List.exists_cons_of_ne_nil (@Nat.toDigits_ne_nil k 10)
    refine ⟨c, cs, shape, .inl ?_⟩
    apply Nat.isDigit_of_mem_toDigits (b := 10) (n := k) (by decide) (by decide)
    rw [shape]
    exact List.mem_cons_self
  | negSucc k => exact ⟨'-', _, rfl, .inr rfl⟩

theorem readTree_number (fuel : Nat) {c : Char} (cs : List Char) (start : StartsInteger c) :
    readTree (fuel + 1) (c :: cs) =
      (readNumber (c :: cs)).map fun (n, rest) => (.number n, rest) := by
  unfold readTree
  rw [skipSpace_cons start.not_space]
  split
  all_goals next h =>
    first
    | exact absurd h (List.cons_ne_nil _ _)
    | cases h; exact absurd start (by decide)
    | cases h; rfl

theorem readItems_comma {fuel : Nat} {cs rest : List Char} {item : Tree}
    (read : readTree fuel cs = .ok (item, ',' :: rest)) :
    readItems (fuel + 1) cs =
      (readItems fuel rest).map fun (items, rest) => (item :: items, rest) := by
  simp only [readItems, read, bind, Except.bind]
  rfl

theorem readItems_bracket {fuel : Nat} {cs blank rest : List Char} {item : Tree}
    (blanks : IsBlank blank) (read : readTree fuel cs = .ok (item, blank ++ ']' :: rest)) :
    readItems (fuel + 1) cs = .ok ([item], rest) := by
  simp only [readItems, read, bind, Except.bind, skipSpace_blank blanks]
  rfl

theorem readFields_key (fuel : Nat) (key : String) {colon : List Char} (blanks : IsBlank colon)
    (cs : List Char) :
    readFields (fuel + 2) (quoted key ++ ':' :: colon ++ cs) =
      (readTree (fuel + 1) cs).bind fun (value, rest) =>
        match skipSpace rest with
        | ',' :: rest =>
          (readFields (fuel + 1) rest).map fun (fields, rest) => ((some key, value) :: fields, rest)
        | '}' :: rest => .ok ([(some key, value)], rest)
        | rest => .error rest := by
  have shape : quoted key ++ ':' :: colon ++ cs =
      '"' :: (key.toList.flatMap escapeChar ++ '"' :: ':' :: (colon ++ cs)) := by
    simp [quoted]
  unfold readFields
  rw [shape, skipSpace_cons (by decide)]
  simp only [readString_escaped, bind, Except.bind, skipSpace_cons (show isSpace ':' = false by decide),
    readTree_congr fuel (skipSpace_blank blanks cs)]
  rfl

/-! ## Reading a layout -/

namespace Layout

variable (l : Layout)

/-- A value begins with something to read, and not with the end of an array. -/
theorem head_chars (level : Nat) {v : Json} (legible : v.Legible) :
    ∃ c cs, l.chars level v = c :: cs ∧ isSpace c = false ∧ c ≠ ']' := by
  cases v with
  | null | string => exact ⟨_, _, rfl, by decide, by decide⟩
  | bool b => cases b <;> exact ⟨_, _, rfl, by decide, by decide⟩
  | int n =>
    obtain ⟨c, cs, shape, start⟩ := head_intChars n
    refine ⟨c, cs, shape, start.not_space, ?_⟩
    rintro rfl
    exact absurd start (by decide)
  | float x =>
    obtain ⟨c, cs, shape, start⟩ := head_of_readNumber legible
    refine ⟨c, cs, shape, StartsInteger.not_space start, ?_⟩
    rintro rfl
    exact absurd start (by decide)
  | array items => cases items <;> exact ⟨_, _, rfl, by decide, by decide⟩
  | object fields => cases fields <;> exact ⟨_, _, rfl, by decide, by decide⟩

theorem length_chars_pos (level : Nat) {v : Json} (legible : v.Legible) :
    1 ≤ (l.chars level v).length := by
  obtain ⟨c, cs, shape, -⟩ := l.head_chars level legible
  simp [shape]

theorem items_cons (level : Nat) (item : Json) (rest : List Json) :
    ∃ tail, l.items level (item :: rest) = l.gap level ++ (l.chars level item ++ tail) ∧
      1 ≤ tail.length := by
  cases rest with
  | nil =>
    refine ⟨l.gap (level - 1) ++ [']'], ?_, ?_⟩ <;> simp [items]
  | cons next rest =>
    refine ⟨',' :: l.items level (next :: rest), ?_, ?_⟩ <;> simp [items]

theorem fields_cons (level : Nat) (key : String) (value : Json) (rest : List (String × Json)) :
    ∃ tail, l.fields level ((key, value) :: rest) = l.gap level ++ '"' :: tail ∧
      (l.chars level value).length + 3 ≤ tail.length := by
  cases rest with
  | nil =>
    refine ⟨key.toList.flatMap escapeChar ++ '"' :: ':' :: (l.colon ++ l.chars level value ++
      l.gap (level - 1) ++ ['}']), ?_, ?_⟩
    · simp [fields, quoted]
    · simp only [List.length_append, List.length_cons, List.length_nil]
      omega
  | cons next rest =>
    refine ⟨key.toList.flatMap escapeChar ++ '"' :: ':' :: (l.colon ++ l.chars level value ++
      ',' :: l.fields level (next :: rest)), ?_, ?_⟩
    · simp [fields, quoted]
    · simp only [List.length_append, List.length_cons]
      omega

theorem skipSpace_items (level : Nat) {item : Json} (more : List Json) (legible : item.Legible)
    (rest ds : List Char) : skipSpace (l.items level (item :: more) ++ rest) ≠ ']' :: ds := by
  obtain ⟨tail, shape, -⟩ := l.items_cons level item more
  obtain ⟨c, cs, begins, space, bracket⟩ := l.head_chars level legible
  rw [shape, List.append_assoc, skipSpace_blank (l.gap_blank level), begins]
  simp [skipSpace_cons space, bracket]

theorem skipSpace_fields (level : Nat) (key : String) (value : Json)
    (more : List (String × Json)) (rest ds : List Char) :
    skipSpace (l.fields level ((key, value) :: more) ++ rest) ≠ '}' :: ds := by
  obtain ⟨tail, shape, -⟩ := l.fields_cons level key value more
  rw [shape, List.append_assoc, skipSpace_blank (l.gap_blank level), List.cons_append,
    skipSpace_cons (by decide)]
  simp

mutual
/-- A value is read back, whatever stands behind it. -/
theorem readTree_chars : ∀ (v : Json) (level fuel : Nat) (rest : List Char), v.Legible →
    (l.chars level v).length ≤ fuel → EndsNumber rest →
    readTree fuel (l.chars level v ++ rest) = .ok (Tree.ofJson v, rest)
  | .null, _, fuel + 1, rest, _, _, _ => rfl
  | .bool true, _, fuel + 1, rest, _, _, _ => rfl
  | .bool false, _, fuel + 1, rest, _, _, _ => rfl
  | .int n, level, fuel, rest, legible, enough, ends => by
    have begun := l.length_chars_pos level legible
    obtain ⟨fuel, rfl⟩ : ∃ f, fuel = f + 1 := ⟨fuel - 1, by omega⟩
    obtain ⟨c, cs, shape, start⟩ := head_intChars n
    have read := readNumber_intChars legible ends
    simp only [chars, scalarChars]
    rw [shape, List.cons_append] at read ⊢
    rw [readTree_number fuel _ start, read]
    rfl
  | .float x, level, fuel, rest, legible, enough, ends => by
    have begun := l.length_chars_pos level legible
    obtain ⟨fuel, rfl⟩ : ∃ f, fuel = f + 1 := ⟨fuel - 1, by omega⟩
    obtain ⟨c, cs, shape, start⟩ := head_of_readNumber legible
    have read := readNumber_append legible ends
    simp only [chars, scalarChars]
    rw [shape, List.cons_append] at read ⊢
    rw [readTree_number fuel _ start, read]
    rfl
  | .string s, _, fuel + 1, rest, _, _, _ => readTree_string fuel s rest
  | .array [], _, fuel + 1, rest, _, _, _ => rfl
  | .array (item :: more), level, fuel, rest, legible, enough, _ => by
    have begun := l.length_chars_pos (level + 1) legible.1
    obtain ⟨tail, shape, behind⟩ := l.items_cons (level + 1) item more
    have length := congrArg List.length shape
    simp only [chars, List.length_cons, List.length_append] at enough length
    -- The bracket, the first item and what stands behind it are a character each at least.
    obtain ⟨fuel, rfl⟩ : ∃ f, fuel = f + 3 := ⟨fuel - 3, by omega⟩
    have read := readItems_items (item :: more) (level + 1) (fuel + 2) rest (List.cons_ne_nil _ _)
      legible (by omega)
    simp only [chars, List.cons_append]
    rw [readTree_array fuel (l.skipSpace_items (level + 1) more legible.1 rest), read]
    rfl
  | .object [], _, fuel + 1, rest, _, _, _ => rfl
  | .object ((key, value) :: more), level, fuel, rest, legible, enough, _ => by
    obtain ⟨tail, shape, behind⟩ := l.fields_cons (level + 1) key value more
    have length := congrArg List.length shape
    simp only [chars, List.length_cons, List.length_append] at enough length
    obtain ⟨fuel, rfl⟩ : ∃ f, fuel = f + 2 := ⟨fuel - 2, by omega⟩
    have read := readFields_fields ((key, value) :: more) (level + 1) (fuel + 1) rest
      (List.cons_ne_nil _ _) legible (by omega)
    simp only [chars, List.cons_append]
    rw [readTree_object fuel (l.skipSpace_fields (level + 1) key value more rest), read]
    rfl

theorem readItems_items : ∀ (items : List Json) (level fuel : Nat) (rest : List Char), items ≠ [] →
    LegibleItems items → (l.items level items).length ≤ fuel →
    readItems fuel (l.items level items ++ rest) = .ok (Tree.ofItems items, rest)
  | [item], level, fuel, rest, _, legible, enough => by
    have begun := l.length_chars_pos level legible.1
    simp only [items, List.length_append, List.length_cons, List.length_nil] at enough
    obtain ⟨fuel, rfl⟩ : ∃ f, fuel = f + 2 := ⟨fuel - 2, by omega⟩
    have read := readTree_chars item level (fuel + 1) (l.gap (level - 1) ++ ']' :: rest) legible.1
      (by omega) (endsNumber_blank (l.gap_blank _) (endsNumber_cons (by decide) rest))
    -- The reader of an item skips the blanks before it itself.
    rw [← readTree_congr fuel (skipSpace_blank (l.gap_blank level) _)] at read
    have text : l.items level [item] ++ rest =
        l.gap level ++ (l.chars level item ++ (l.gap (level - 1) ++ ']' :: rest)) := by
      simp [items]
    rw [text, readItems_bracket (l.gap_blank _) read]
    rfl
  | item :: next :: more, level, fuel, rest, _, legible, enough => by
    have begun := l.length_chars_pos level legible.1
    simp only [items, List.length_append, List.length_cons] at enough
    obtain ⟨fuel, rfl⟩ : ∃ f, fuel = f + 2 := ⟨fuel - 2, by omega⟩
    have read := readTree_chars item level (fuel + 1) (',' :: (l.items level (next :: more) ++ rest))
      legible.1 (by omega) (endsNumber_cons (by decide) _)
    rw [← readTree_congr fuel (skipSpace_blank (l.gap_blank level) _)] at read
    have text : l.items level (item :: next :: more) ++ rest =
        l.gap level ++ (l.chars level item ++ ',' :: (l.items level (next :: more) ++ rest)) := by
      simp [items]
    rw [text, readItems_comma read, readItems_items (next :: more) level (fuel + 1) rest
      (List.cons_ne_nil _ _) legible.2 (by omega)]
    rfl

theorem readFields_fields : ∀ (fields : List (String × Json)) (level fuel : Nat)
    (rest : List Char), fields ≠ [] → LegibleFields fields → (l.fields level fields).length ≤ fuel →
    readFields fuel (l.fields level fields ++ rest) = .ok (Tree.ofFields fields, rest)
  | [(key, value)], level, fuel, rest, _, legible, enough => by
    simp only [fields, quoted, List.length_append, List.length_cons, List.length_nil] at enough
    obtain ⟨fuel, rfl⟩ : ∃ f, fuel = f + 2 := ⟨fuel - 2, by omega⟩
    have read := readTree_chars value level (fuel + 1) (l.gap (level - 1) ++ '}' :: rest) legible.1
      (by omega) (endsNumber_blank (l.gap_blank _) (endsNumber_cons (by decide) rest))
    have text : l.fields level [(key, value)] ++ rest = l.gap level ++ (quoted key ++ ':' :: l.colon ++
        (l.chars level value ++ (l.gap (level - 1) ++ '}' :: rest))) := by
      simp [fields]
    rw [text, readFields_congr (fuel + 1) (skipSpace_blank (l.gap_blank level) _),
      readFields_key fuel key l.colon_blank, read]
    simp only [Except.bind, skipSpace_blank (l.gap_blank (level - 1))]
    rfl
  | (key, value) :: next :: more, level, fuel, rest, _, legible, enough => by
    simp only [fields, quoted, List.length_append, List.length_cons] at enough
    obtain ⟨fuel, rfl⟩ : ∃ f, fuel = f + 2 := ⟨fuel - 2, by omega⟩
    have read := readTree_chars value level (fuel + 1)
      (',' :: (l.fields level (next :: more) ++ rest)) legible.1 (by omega) (endsNumber_cons (by decide) _)
    have text : l.fields level ((key, value) :: next :: more) ++ rest =
        l.gap level ++ (quoted key ++ ':' :: l.colon ++
          (l.chars level value ++ ',' :: (l.fields level (next :: more) ++ rest))) := by
      simp [fields]
    rw [text, readFields_congr (fuel + 1) (skipSpace_blank (l.gap_blank level) _),
      readFields_key fuel key l.colon_blank, read]
    simp only [Except.bind, skipSpace_cons (show isSpace ',' = false by decide)]
    rw [readFields_fields (next :: more) level (fuel + 1) rest (List.cons_ne_nil _ _) legible.2
      (by omega)]
    rfl
end

theorem parse_chars {v : Json} (legible : v.Legible) {s : String} {blank : List Char}
    (blanks : IsBlank blank) (text : s.toList = l.chars 0 v ++ blank) :
    Tree.parse s = .ok (Tree.ofJson v) := by
  have ends : EndsNumber blank := by simpa using @endsNumber_blank blank [] blanks trivial
  have read := l.readTree_chars v 0 (2 * s.toList.length + 1) blank legible
    (by simp only [text, List.length_append]; omega) ends
  have nothing : skipSpace blank = [] := by simpa [skipSpace] using skipSpace_blank blanks []
  unfold Tree.parse
  rw [← text] at read
  simp only [read, nothing]

end Layout

/-- A legible value that is written on lines, and ended, is read back. -/
theorem Tree.parse_legible {v : Json} (legible : v.Legible) :
    Tree.parse (v.pretty ++ "\n") = .ok (Tree.ofJson v) := by
  have blanks : IsBlank ['\n'] := by simp [IsBlank, isSpace]
  apply Layout.pretty.parse_chars legible blanks
  simp [Json.pretty, prettyChars_eq]

theorem Tree.parse_pretty {v : Json} (plain : v.Plain) :
    Tree.parse (v.pretty ++ "\n") = .ok (Tree.ofJson v) :=
  Tree.parse_legible plain.legible

theorem Tree.parse_compact {v : Json} (plain : v.Plain) :
    Tree.parse v.compact = .ok (Tree.ofJson v) := by
  have blanks : IsBlank [] := List.forall_mem_nil _
  apply Layout.compact.parse_chars plain.legible blanks
  simp [Json.compact, compactChars_eq 0]

end FleetControl.Json
