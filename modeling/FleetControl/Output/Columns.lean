/-!
# Columns

A table row is its cells, each filled to the width of its column, with a gap of two spaces between
any two.

1. `fit` cuts a text to a width; a cut text ends in three dots if the width has room for them.
2. `Column.fill` fills a text to the width of a column; it never cuts.
3. `length_fit_le` and `length_fill` say how long the results are.
-/

namespace FleetControl.Columns

def dots : List Char := ['.', '.', '.']

def fitChars (width : Nat) (cs : List Char) : List Char :=
  if cs.length ≤ width then cs
  else if 3 < width then cs.take (width - 3) ++ dots
  else cs.take width

def fit (width : Nat) (s : String) : String :=
  String.ofList (fitChars width s.toList)

/-- A column: its heading, its width, and on which side its texts stand. -/
structure Column where
  heading : String
  width : Nat
  right : Bool
  deriving DecidableEq, Repr, Inhabited

namespace Column

def left (heading : String) (width : Nat) : Column := ⟨heading, width, false⟩

/-- The characters of a text filled to the width of a column. -/
def fillChars (column : Column) (cs : List Char) : List Char :=
  let blanks := List.replicate (column.width - cs.length) ' '
  if column.right then blanks ++ cs else cs ++ blanks

def fill (column : Column) (s : String) : String :=
  String.ofList (column.fillChars s.toList)

end Column

def row : List Column → List String → String
  | [], _ => ""
  | _, [] => ""
  | [column], cell :: _ => column.fill cell
  | column :: columns, cell :: cells => column.fill cell ++ "  " ++ row columns cells

def headings (columns : List Column) : String :=
  row columns (columns.map (·.heading))

def rule (c : Char) (width : Nat) : String :=
  String.ofList (List.replicate width c)

/-- The width of a table: its columns with the gaps between them. -/
def tableWidth (columns : List Column) : Nat :=
  columns.foldl (fun width column => width + column.width) 0 + 2 * (columns.length - 1)

/-! ## Small lemmas -/

theorem length_fit_le (width : Nat) (cs : List Char) : (fitChars width cs).length ≤ width := by
  unfold fitChars
  split
  · assumption
  · split
    · simp only [dots, List.length_append, List.length_take, List.length_cons, List.length_nil]
      omega
    · simp only [List.length_take]
      omega

theorem length_fill (column : Column) (cs : List Char) :
    (column.fillChars cs).length = max column.width cs.length := by
  unfold Column.fillChars
  split <;> simp <;> omega

end FleetControl.Columns
