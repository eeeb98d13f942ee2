import FleetControl.Progress.Terminal
import FleetControl.Proofs.Json.Tokens
import Mathlib.Data.List.GetD
import Mathlib.Logic.Function.Basic

/-!
# What a screen makes of escape sequences

A screen is a grid of cells with a cursor, wide and tall enough for all that is written to it. It
reads one character after the other and obeys the escape sequences among them.

1. `Screen.take` reads one character, `Screen.read` a text. Every character has one cell; a line
   feed goes back to the first column as well, or does not.
2. `read_up` and the lemmas after it: each sequence that is written is read as it was meant.
3. `Screen.Shows` says which lines a screen shows. `Shows.climb`, `Shows.redrawn` and `Shows.noted`
   are what climbing and the two ways of writing a line do to them.
-/

namespace FleetControl

/-- What stands at one place of a screen. -/
structure Cell where
  symbol : Char
  colour : Option Nat
  deriving DecidableEq, Repr, Inhabited

def Cell.blank : Cell := ⟨' ', none⟩

/-- How far an escape sequence was read. -/
inductive Reading where
  | plain
  | escaped
  | arguments (written : List Char)
  deriving DecidableEq, Repr, Inhabited

/-- A terminal that is wide and tall enough for all that is written to it. -/
structure Screen where
  cell : Nat → Nat → Cell
  row : Nat
  column : Nat
  colour : Option Nat
  reading : Reading
  /-- Whether a line feed also goes back to the first column. -/
  returns : Bool

namespace Screen

/-- The cells of a line that holds these and nothing after them. -/
def line (cells : List Cell) (column : Nat) : Cell :=
  cells.getD column .blank

/-- A screen with nothing on it, with the cursor at its top. -/
def blank (returns : Bool) : Screen :=
  ⟨fun _ => line [], 0, 0, none, .plain, returns⟩

/-- Whether a character moves the cursor or worse: those of the category Cc. -/
def isControl (c : Char) : Bool :=
  c.toNat < 0x20 || (0x7F ≤ c.toNat && c.toNat < 0xA0)

def isFinal (c : Char) : Bool :=
  0x40 ≤ c.toNat && c.toNat ≤ 0x7E

/-- The arguments of an escape sequence; one that is left out counts as zero. -/
def arguments (written : List Char) : List Nat :=
  (written.splitOn ';').map (Text.numberOf 10)

def put (s : Screen) (c : Char) : Screen :=
  { s with
    cell := Function.update s.cell s.row (Function.update (s.cell s.row) s.column ⟨c, s.colour⟩)
    column := s.column + 1 }

def feedLine (s : Screen) : Screen :=
  { s with row := s.row + 1, column := if s.returns then 0 else s.column }

/-- Does what an escape sequence says; one that is not known does nothing. -/
def obey (s : Screen) (args : List Nat) : Char → Screen
  | 'A' => { s with row := s.row - max 1 (args.headD 0) }
  | 'G' => { s with column := max 1 (args.headD 0) - 1 }
  | 'J' =>
    if args.headD 0 = 0 then
      { s with cell := fun row column =>
          if row < s.row ∨ row = s.row ∧ column < s.column then s.cell row column else .blank }
    else s
  | 'K' =>
    if args.headD 0 = 2 then { s with cell := Function.update s.cell s.row (line []) } else s
  | 'm' =>
    match args with
    | [0] => { s with colour := none }
    | [38, 5, n] => { s with colour := some n }
    | _ => s
  | _ => s

def take (s : Screen) (c : Char) : Screen :=
  match s.reading with
  | .plain =>
    if c = '\x1b' then { s with reading := .escaped }
    else if c = '\n' then s.feedLine
    else if isControl c then s
    else s.put c
  | .escaped => { s with reading := if c = '[' then .arguments [] else .plain }
  | .arguments written =>
    if isFinal c then { s with reading := .plain }.obey (arguments written) c
    else { s with reading := .arguments (written ++ [c]) }

def read (s : Screen) (text : String) : Screen :=
  text.toList.foldl take s

/-! ## Reading a text -/

@[simp] theorem read_append (s : Screen) (front back : String) :
    s.read (front ++ back) = (s.read front).read back := by
  simp [read]

theorem read_join (s : Screen) (pieces : List String) :
    s.read (String.join pieces) = pieces.foldl read s := by
  induction pieces generalizing s with
  | nil => rfl
  | cons piece pieces ih => rw [String.join_cons, read_append, ih, List.foldl_cons]

theorem returns_read (s : Screen) (text : String) : (s.read text).returns = s.returns := by
  have step (s : Screen) (c : Char) : (s.take c).returns = s.returns := by
    unfold take obey
    repeat' split
    all_goals rfl
  unfold read
  generalize text.toList = cs
  induction cs generalizing s with
  | nil => rfl
  | cons c cs ih => rw [List.foldl_cons, ih, step]

theorem read_escape {s : Screen} (plain : s.reading = .plain) (body : List Char) (final : Char)
    (inner : body.any isFinal = false) (last : isFinal final = true) :
    s.read (Terminal.escape (String.ofList (body ++ [final]))) = s.obey (arguments body) final := by
  have arguments_of (rest : List Char) (written : List Char)
      (inner : ∀ c ∈ rest, ¬isFinal c = true) :
      rest.foldl take { s with reading := .arguments written } =
        { s with reading := .arguments (written ++ rest) } := by
    induction rest generalizing written with
    | nil => simp
    | cons c rest ih =>
      have here := inner c (by simp)
      rw [List.foldl_cons]
      show rest.foldl take (if isFinal c then _ else _) = _
      rw [if_neg here, ih _ fun c member => inner c (List.mem_cons_of_mem _ member)]
      simp
  have opening : (Terminal.escape (String.ofList (body ++ [final]))).toList =
      '\x1b' :: '[' :: (body ++ [final]) := by
    simp [Terminal.escape]
  have first : s.take '\x1b' = { s with reading := .escaped } := by
    simp [take, plain]
  unfold read
  rw [opening, List.foldl_cons, first, List.foldl_cons, List.foldl_append]
  show [final].foldl take (body.foldl take { s with reading := .arguments [] }) = _
  rw [arguments_of body [] (List.any_eq_false.mp inner), List.foldl_cons, List.foldl_nil]
  show (if isFinal final then ({ s with reading := .plain } : Screen).obey _ _ else _) = _
  rw [if_pos last, List.nil_append, ← plain]

/-- The digits of a number are inside of an escape sequence, and one argument of it. -/
theorem isDigit_of_mem_digits {n : Nat} {c : Char} (member : c ∈ Nat.toDigits 10 n) :
    c.isDigit = true :=
  Nat.isDigit_of_mem_toDigits (by decide) (by decide) member

theorem any_isFinal_digits (n : Nat) : (Nat.toDigits 10 n).any isFinal = false := by
  rw [List.any_eq_false]
  intro c member
  have top : c.toNat ≤ 57 := (Char.isDigit_iff_toNat.mp (isDigit_of_mem_digits member)).2
  simp only [isFinal, Bool.and_eq_true, decide_eq_true_eq, not_and]
  omega

theorem arguments_digits (n : Nat) : arguments (Nat.toDigits 10 n) = [n] := by
  have whole : ';' ∉ Nat.toDigits 10 n := fun member =>
    absurd (isDigit_of_mem_digits member) (by decide)
  simp [arguments, List.splitOn_eq_singleton whole, Text.numberOf_toDigits]

/-- Climbing goes up by as many rows as there are, but for none at all. -/
theorem read_up {s : Screen} (plain : s.reading = .plain) {n : Nat} (climbs : n ≠ 0) :
    s.read (Terminal.up n) = { s with row := s.row - n } := by
  have written : Terminal.up n = Terminal.escape (String.ofList (Nat.toDigits 10 n ++ ['A'])) := by
    unfold Terminal.up
    congr 1
    apply String.toList_injective
    simp
  rw [written, read_escape plain _ _ (any_isFinal_digits n) (by decide), arguments_digits]
  show ({ s with row := s.row - max 1 n } : Screen) = _
  rw [Nat.max_eq_right (by omega)]

theorem read_colour {s : Screen} (plain : s.reading = .plain) (n : Nat) :
    s.read (Terminal.colour n) = { s with colour := some n } := by
  have written : Terminal.colour n =
      Terminal.escape (String.ofList ("38;5;".toList ++ Nat.toDigits 10 n ++ ['m'])) := by
    unfold Terminal.colour
    congr 1
    apply String.toList_injective
    simp
  have inner : ("38;5;".toList ++ Nat.toDigits 10 n).any isFinal = false := by
    rw [List.any_append, any_isFinal_digits]
    decide
  have three : arguments ("38;5;".toList ++ Nat.toDigits 10 n) = [38, 5, n] := by
    show Text.numberOf 10 ['3', '8'] :: Text.numberOf 10 ['5'] :: arguments (Nat.toDigits 10 n) = _
    rw [arguments_digits]
    rfl
  rw [written, read_escape plain _ _ inner (by decide), three]
  rfl

theorem read_reset {s : Screen} (plain : s.reading = .plain) :
    s.read Terminal.reset = { s with colour := none } :=
  read_escape plain ['0'] 'm' (by decide) (by decide)

theorem read_columnZero {s : Screen} (plain : s.reading = .plain) :
    s.read Terminal.columnZero = { s with column := 0 } :=
  read_escape plain ['1'] 'G' (by decide) (by decide)

theorem read_clearLine {s : Screen} (plain : s.reading = .plain) :
    s.read Terminal.clearLine = { s with cell := Function.update s.cell s.row (line []) } :=
  read_escape plain ['2'] 'K' (by decide) (by decide)

theorem read_clearBelow {s : Screen} (plain : s.reading = .plain) :
    s.read Terminal.clearBelow =
      { s with cell := fun row column =>
          if row < s.row ∨ row = s.row ∧ column < s.column then s.cell row column else .blank } :=
  read_escape plain [] 'J' (by decide) (by decide)

/-! ## Drawing a line -/

/-- The screen with these cells and no others in the row of the cursor, which stands after them. -/
def onLine (s : Screen) (cells : List Cell) : Screen :=
  { s with cell := Function.update s.cell s.row (line cells), column := cells.length }

/-- The screen after these cells were drawn in the row of the cursor. -/
def drawLine (s : Screen) (cells : List Cell) : Screen :=
  (s.onLine cells).feedLine

def cellsOf (colour : Option Nat) (text : String) : List Cell :=
  text.toList.map fun c => ⟨c, colour⟩

/-- Whether a text is free of control characters. -/
def Clean (text : String) : Prop :=
  ∀ c ∈ text.toList, isControl c = false

instance (text : String) : Decidable (Clean text) :=
  decidable_of_iff (text.toList.any isControl = false) (by simp [Clean])

theorem line_snoc (cells : List Cell) (cell : Cell) :
    Function.update (line cells) cells.length cell = line (cells ++ [cell]) := by
  funext column
  unfold line
  rw [Function.update_apply, List.getD_eq_getElem?_getD, List.getD_eq_getElem?_getD,
    List.getElem?_append]
  rcases Nat.lt_trichotomy column cells.length with before | rfl | after
  · simp [before, Nat.ne_of_lt before]
  · simp
  · have past : column - cells.length ≠ 0 := by omega
    simp [Nat.ne_of_gt after, Nat.lt_asymm after, past]

theorem take_onLine {s : Screen} (plain : s.reading = .plain) (cells : List Cell) {c : Char}
    (visible : isControl c = false) :
    (s.onLine cells).take c = s.onLine (cells ++ [⟨c, s.colour⟩]) := by
  have escape : c ≠ '\x1b' := by
    rintro rfl
    cases visible
  have newline : c ≠ '\n' := by
    rintro rfl
    cases visible
  have puts : (s.onLine cells).take c = (s.onLine cells).put c := by
    simp [take, onLine, plain, escape, newline, visible]
  rw [puts]
  simp [put, onLine, line_snoc]

theorem read_onLine {s : Screen} (plain : s.reading = .plain) (cells : List Cell) {text : String}
    (clean : Clean text) :
    (s.onLine cells).read text = s.onLine (cells ++ cellsOf s.colour text) := by
  unfold Clean at clean
  unfold read cellsOf
  generalize text.toList = cs at clean ⊢
  induction cs generalizing cells with
  | nil => simp
  | cons c rest ih =>
    rw [List.foldl_cons, take_onLine plain cells (clean c List.mem_cons_self),
      ih _ fun c member => clean c (List.mem_cons_of_mem _ member)]
    simp

/-- The cells of a coloured mark, a space and a text. -/
def markedLine (colour : Nat) (symbol text : String) : List Cell :=
  cellsOf (some colour) symbol ++ ⟨' ', none⟩ :: cellsOf none text

/-- A coloured mark, a space, a text and a line feed draw a line. -/
theorem read_marked {s : Screen} (plain : s.reading = .plain) (colourless : s.colour = none)
    (colour : Nat) {symbol text : String} (mark : Clean symbol) (clean : Clean text) :
    (Terminal.glyph colour symbol ++ [" ", text, "\n"]).foldl read (s.onLine []) =
      s.drawLine (markedLine colour symbol text) := by
  have coloured : (s.onLine []).read (Terminal.colour colour) =
      ({ s with colour := some colour } : Screen).onLine [] :=
    read_colour (s := s.onLine []) plain colour
  have marked : (({ s with colour := some colour } : Screen).onLine []).read symbol =
      ({ s with colour := some colour } : Screen).onLine (cellsOf (some colour) symbol) :=
    read_onLine (s := { s with colour := some colour }) plain [] mark
  have uncoloured : (({ s with colour := some colour } : Screen).onLine
      (cellsOf (some colour) symbol)).read Terminal.reset =
        s.onLine (cellsOf (some colour) symbol) := by
    rw [read_reset (s := ({ s with colour := some colour } : Screen).onLine _) plain]
    show ({ s with colour := none } : Screen).onLine _ = _
    rw [← colourless]
  have spaced : (s.onLine (cellsOf (some colour) symbol)).read " " =
      s.onLine (cellsOf (some colour) symbol ++ [⟨' ', none⟩]) := by
    rw [read_onLine plain _ (by decide), colourless]
    rfl
  have written := read_onLine plain (cellsOf (some colour) symbol ++ [⟨' ', none⟩]) clean
  have fed (cells : List Cell) : (s.onLine cells).read "\n" = s.drawLine cells := by
    show take (s.onLine cells) '\n' = _
    simp [take, onLine, plain, drawLine]
  unfold Terminal.glyph
  simp only [List.cons_append, List.nil_append, List.foldl_cons, List.foldl_nil]
  rw [coloured, marked, uncoloured, spaced, written, fed, colourless]
  simp [markedLine]

/-! ## What a screen shows -/

/-- A screen shows these lines from its top and has the cursor on the row just below them. Nothing
is on the rows below those of `height`. -/
structure Shows (s : Screen) (lines : List (List Cell)) (height : Nat) : Prop where
  cells : ∀ row, row < lines.length ∨ height ≤ row → s.cell row = line (lines.getD row [])
  row : s.row = lines.length
  column : s.returns = true → s.column = 0
  colour : s.colour = none
  reading : s.reading = .plain

namespace Shows

variable {s : Screen} {lines : List (List Cell)} {height : Nat}

theorem blank (returns : Bool) : Shows (blank returns) [] 0 :=
  ⟨fun _ _ => rfl, rfl, fun _ => rfl, rfl, rfl⟩

theorem settle (h : Shows s lines height) (fills : height ≤ lines.length) : Shows s lines 0 :=
  { h with cells := fun row _ => h.cells row (by omega) }

/-- Drawing a line shows it below the others. -/
theorem drawLine (h : Shows s lines height) (cells : List Cell) :
    Shows (s.drawLine cells) (lines ++ [cells]) height := by
  refine ⟨fun row place => ?_, ?_, ?_, h.colour, h.reading⟩
  · show Function.update s.cell s.row (line cells) row = _
    rw [h.row]
    rw [List.length_append, List.length_singleton] at place
    rcases Nat.lt_trichotomy row lines.length with before | rfl | after
    · rw [Function.update_of_ne (by omega), h.cells row (.inl before),
        List.getD_append _ _ _ _ before]
    · simp
    · rw [Function.update_of_ne (by omega), h.cells row (by omega),
        List.getD_eq_default _ _ (by omega), List.getD_eq_default _ _ (by simp; omega)]
  · show s.row + 1 = _
    simp [h.row]
  · intro returns
    show (if s.returns then 0 else cells.length) = 0
    exact if_pos returns

/-- Climbing over the last lines shows those before them, with the last ones still in use. -/
theorem climb {front back : List (List Cell)} (h : Shows s (front ++ back) 0) :
    Shows ((Terminal.climbPieces back.length).foldl read s) front (front.length + back.length) := by
  have here (s' : Screen) (same : s' = { s with row := front.length }) :
      Shows s' front (front.length + back.length) := by
    subst same
    refine ⟨fun row place => ?_, rfl, h.column, h.colour, h.reading⟩
    show s.cell row = _
    rw [h.cells row (.inr (Nat.zero_le row))]
    rcases place with before | after
    · rw [List.getD_append _ _ _ _ before]
    · rw [List.getD_eq_default _ _ (by simp; omega), List.getD_eq_default _ _ (by omega)]
  apply here
  have top : s.row - back.length = front.length := by
    simp [h.row]
  unfold Terminal.climbPieces
  split
  · next none =>
    have : s.row = front.length := by omega
    rw [← this]
    rfl
  · next climbs =>
    show s.read (Terminal.up back.length) = _
    rw [read_up h.reading climbs, top]

theorem redrawn (h : Shows s lines height) (colour : Nat) {symbol text : String}
    (mark : Clean symbol) (clean : Clean text) :
    Shows (([Terminal.columnZero, Terminal.clearLine] ++ Terminal.glyph colour symbol ++
      [" ", text, "\n"]).foldl read s) (lines ++ [markedLine colour symbol text]) height := by
  have cleared : (s.read Terminal.columnZero).read Terminal.clearLine = s.onLine [] := by
    rw [read_columnZero h.reading, read_clearLine (s := { s with column := 0 }) h.reading]
    rfl
  rw [List.append_assoc, List.foldl_append, List.foldl_cons, List.foldl_cons, List.foldl_nil,
    cleared, read_marked h.reading h.colour colour mark clean]
  exact h.drawLine _

theorem noted (h : Shows s lines height) (colour : Nat) {symbol text : String}
    (mark : Clean symbol) (clean : Clean text) :
    Shows (([Terminal.columnZero, Terminal.clearBelow] ++ Terminal.glyph colour symbol ++
      [" ", text, "\n"]).foldl read s) (lines ++ [markedLine colour symbol text]) 0 := by
  have cleared : (s.read Terminal.columnZero).read Terminal.clearBelow =
      { s with
        column := 0
        cell := fun row column => if row < s.row then s.cell row column else .blank } := by
    rw [read_columnZero h.reading, read_clearBelow (s := { s with column := 0 }) h.reading]
    simp
  have shows : Shows ((s.read Terminal.columnZero).read Terminal.clearBelow) lines 0 := by
    rw [cleared]
    refine ⟨fun row _ => ?_, h.row, fun _ => rfl, h.colour, h.reading⟩
    funext column
    show (if row < s.row then s.cell row column else .blank) = _
    rw [h.row]
    split
    · next before => rw [h.cells row (.inl before)]
    · next after => simp [line, List.getElem?_eq_none (Nat.le_of_not_lt after)]
  -- The line of the cursor is blank, so that writing on it starts like writing on a cleared line.
  have empty : ((s.read Terminal.columnZero).read Terminal.clearBelow).onLine [] =
      (s.read Terminal.columnZero).read Terminal.clearBelow := by
    have bare : ((s.read Terminal.columnZero).read Terminal.clearBelow).cell s.row = line [] := by
      rw [shows.cells _ (.inr (Nat.zero_le _)), h.row, List.getD_eq_default _ _ (Nat.le_refl _)]
    rw [cleared] at bare ⊢
    simp only [onLine, ← bare, Function.update_eq_self, List.length_nil]
  rw [List.append_assoc, List.foldl_append, List.foldl_cons, List.foldl_cons, List.foldl_nil,
    ← empty, read_marked shows.reading shows.colour colour mark clean]
  exact shows.drawLine _

end Shows

end Screen

end FleetControl
