import FleetControl.Output.Basic
import FleetControl.Proofs.Text.Lines

/-!
# Where the columns of a table start

1. `Columns.starts` are the offsets at which the cells of a row start, and `row_eq_append` says that
   each cell is there in the text of the row.
2. `Columns.startsFrom_eq_iff`: a row starts its columns where a row that fits does if no cell but
   the last one is wider than its column, and only then.
3. `Output.table?` views an output as a table of values, each with a flag for whether it is cut to
   its column. `Output.aligned_iff` says of every table that is written which of its rows start their
   columns where the headings do.
-/

namespace FleetControl

open Text (Unbroken)

namespace Columns

/-! ## Rows -/

/-- The offsets at which the cells of a row start that itself starts at `start`. -/
def startsFrom (start : Nat) : List Column → List String → List Nat
  | column :: columns, cell :: cells =>
    start :: startsFrom (start + (column.fill cell).length + 2) columns cells
  | _, _ => []

/-- The offsets at which the cells of a row start. -/
def starts (columns : List Column) (cells : List String) : List Nat :=
  startsFrom 0 columns cells

/-- No cell but the last one is wider than its column. -/
def Fits (columns : List Column) (cells : List String) : Prop :=
  ∀ pair ∈ (columns.zip cells).dropLast, pair.2.length ≤ pair.1.width

instance (columns : List Column) (cells : List String) : Decidable (Fits columns cells) :=
  inferInstanceAs (Decidable (∀ pair ∈ _, _))

variable {columns : List Column} {cells fitting : List String} {start : Nat}

theorem fits_cons {column next : Column} {cell cell' : String} :
    Fits (column :: next :: columns) (cell :: cell' :: cells) ↔
      cell.length ≤ column.width ∧ Fits (next :: columns) (cell' :: cells) :=
  List.forall_mem_cons

theorem length_fill_text (column : Column) (cell : String) :
    (column.fill cell).length = max column.width cell.length := by
  unfold Column.fill
  rw [String.length_ofList, length_fill, String.length_toList]

theorem row_cons (column next : Column) (columns : List Column) (cell : String)
    (cells : List String) :
    row (column :: next :: columns) (cell :: cells) =
      column.fill cell ++ "  " ++ row (next :: columns) cells := by
  cases cells <;> rfl

/-- Each cell is written at its offset, filled to its column. -/
theorem row_eq_append {i : Nat} {column : Column} {cell : String}
    (hcolumn : columns[i]? = some column) (hcell : cells[i]? = some cell) :
    ∃ front back, (row columns cells).toList = front ++ (column.fill cell).toList ++ back ∧
      (startsFrom start columns cells)[i]? = some (start + front.length) := by
  induction i generalizing start columns cells with
  | zero =>
    cases columns with
    | nil => cases hcolumn
    | cons own columns =>
      cases cells with
      | nil => cases hcell
      | cons mine cells =>
        cases hcolumn
        cases hcell
        cases columns with
        | nil => exact ⟨[], [], by simp [row], rfl⟩
        | cons next columns =>
          refine ⟨[], "  ".toList ++ (row (next :: columns) cells).toList, ?_, rfl⟩
          rw [row_cons, String.toList_append, String.toList_append, List.append_assoc]
          rfl
  | succ i ih =>
    cases columns with
    | nil => cases hcolumn
    | cons own columns =>
      cases cells with
      | nil => cases hcell
      | cons mine cells =>
        cases columns with
        | nil => cases hcolumn
        | cons next columns =>
          obtain ⟨front, back, whole, here⟩ := @ih _ _ (start + (own.fill mine).length + 2)
            hcolumn hcell
          refine ⟨(own.fill mine).toList ++ "  ".toList ++ front, back, ?_, ?_⟩
          · rw [row_cons, String.toList_append, String.toList_append, whole]
            simp only [List.append_assoc]
          · have gap : "  ".toList.length = 2 := rfl
            rw [List.length_append, List.length_append, String.length_toList, gap]
            exact here.trans (congrArg some (by omega))

/-- A row starts its columns where a row that fits does if it fits itself, and only then. -/
theorem startsFrom_eq_iff (own : cells.length = columns.length)
    (other : fitting.length = columns.length) (fits : Fits columns fitting) :
    startsFrom start columns cells = startsFrom start columns fitting ↔ Fits columns cells := by
  -- a column that is too narrow moves the next start, and a cell that fits leaves it where it was
  induction columns generalizing start cells fitting with
  | nil => simp [startsFrom, Fits]
  | cons column columns ih =>
    obtain ⟨cell, cells, rfl⟩ := List.exists_cons_of_length_eq_add_one own
    obtain ⟨wide, fitting, rfl⟩ := List.exists_cons_of_length_eq_add_one other
    cases columns with
    | nil =>
      rw [List.length_eq_zero_iff.mp (Nat.succ.inj own)]
      simp [startsFrom, Fits]
    | cons next columns =>
      have own := Nat.succ.inj own
      have other := Nat.succ.inj other
      obtain ⟨cell', cells, rfl⟩ := List.exists_cons_of_length_eq_add_one own
      obtain ⟨wide', fitting, rfl⟩ := List.exists_cons_of_length_eq_add_one other
      rw [fits_cons] at fits ⊢
      have same_width : cell.length ≤ column.width ↔
          (column.fill cell).length = (column.fill wide).length := by
        rw [length_fill_text, length_fill_text]
        omega
      rw [same_width, ← @ih _ _ (start + (column.fill wide).length + 2) own other fits.2]
      unfold startsFrom
      rw [List.cons.injEq]
      constructor
      · rintro ⟨-, same⟩
        have width : (column.fill cell).length = (column.fill wide).length := by
          have next_start := (List.cons.inj same).1
          omega
        rw [width] at same
        exact ⟨width, same⟩
      · rintro ⟨width, same⟩
        rw [width]
        exact ⟨rfl, same⟩

/-! ## Values -/

/-- A value of a table, and whether it is cut to the width of its column. -/
structure Value where
  text : String
  cut : Bool
  deriving DecidableEq, Repr

namespace Value

def shown (value : Value) (column : Column) : String :=
  if value.cut then fit column.width value.text else value.text

/-- Whether a value takes no more than its column. -/
def Stays (value : Value) (column : Column) : Prop :=
  value.cut ∨ value.text.length ≤ column.width

instance (value : Value) (column : Column) : Decidable (value.Stays column) :=
  inferInstanceAs (Decidable (_ ∨ _))

/-- A value that is cut is shown whole if its column has room for it, and else by a leading part
with three dots, if there is room for these; one that is not cut is always shown whole. -/
def ShownAs (value : Value) (column : Column) (shown : String) : Prop :=
  if value.cut ∧ column.width < value.text.length then
    shown.length = column.width ∧
      (3 < column.width → ∃ kept, kept <+: value.text.toList ∧ shown.toList = kept ++ dots)
  else shown = value.text

theorem shownAs_shown (value : Value) (column : Column) :
    value.ShownAs column (value.shown column) := by
  obtain ⟨text, cut⟩ := value
  unfold ShownAs shown
  cases cut with
  | false => simp
  | true =>
    simp only [true_and, if_true]
    unfold fit fitChars
    rw [String.length_toList]
    split
    · next wide =>
      rw [if_neg (Nat.not_le.mpr wide)]
      by_cases three : 3 < column.width
      · rw [if_pos three, String.length_ofList, String.toList_ofList]
        refine ⟨?_, fun _ => ⟨_, List.take_prefix _ _, rfl⟩⟩
        rw [List.length_append, List.length_take, String.length_toList, dots]
        simp only [List.length_cons, List.length_nil]
        omega
      · rw [if_neg three, String.length_ofList, List.length_take, String.length_toList]
        exact ⟨by omega, fun wide => absurd wide three⟩
    · next whole =>
      rw [if_pos (Nat.le_of_not_lt whole), String.ofList_toList]

theorem length_shown_le_iff (value : Value) (column : Column) :
    (value.shown column).length ≤ column.width ↔ value.Stays column := by
  obtain ⟨text, cut⟩ := value
  unfold shown Stays
  cases cut with
  | false => simp
  | true =>
    have short := length_fit_le column.width text.toList
    simpa [fit] using short

end Value

/-- What stands in the columns of a row of values. -/
def shownTexts (columns : List Column) (values : List Value) : List String :=
  (columns.zip values).map fun pair => pair.2.shown pair.1

/-- A row of values fits if all of them but the last one stay in their columns. -/
theorem fits_shownTexts_iff (columns : List Column) (values : List Value) :
    Fits columns (shownTexts columns values) ↔
      ∀ pair ∈ (columns.zip values).dropLast, pair.2.Stays pair.1 := by
  have pairs : columns.zip (shownTexts columns values) =
      (columns.zip values).map fun pair => (pair.1, pair.2.shown pair.1) := by
    induction columns generalizing values with
    | nil => rfl
    | cons column columns ih =>
      cases values with
      | nil => rfl
      | cons value values => exact congrArg _ (ih values)
  unfold Fits
  rw [pairs, ← List.map_dropLast, List.forall_mem_map]
  simp only [Value.length_shown_le_iff]

/-! ## Line ends -/

theorem unbroken_fill (column : Column) {cell : String} (h : Unbroken cell) :
    Unbroken (column.fill cell) := by
  have blanks : '\n' ∉ List.replicate (column.width - cell.toList.length) ' ' :=
    fun mem => absurd (List.eq_of_mem_replicate mem) (by decide)
  unfold Unbroken Column.fill Column.fillChars
  rw [String.toList_ofList]
  split
  · exact List.not_mem_append blanks h
  · exact List.not_mem_append h blanks

theorem unbroken_row (columns : List Column) {cells : List String}
    (h : ∀ cell ∈ cells, Unbroken cell) : Unbroken (row columns cells) := by
  induction columns generalizing cells with
  | nil => exact List.not_mem_nil
  | cons column columns ih =>
    cases cells with
    | nil => exact List.not_mem_nil
    | cons cell cells =>
      rw [List.forall_mem_cons] at h
      have filled := unbroken_fill column h.1
      cases columns with
      | nil => exact filled
      | cons next columns =>
        rw [row_cons]
        exact (filled.append (by decide)).append (ih h.2)

theorem unbroken_shown {value : Value} (h : Unbroken value.text) (column : Column) :
    Unbroken (value.shown column) := by
  have dotted : '\n' ∉ dots := by decide
  unfold Value.shown
  split
  · unfold fit fitChars Unbroken
    rw [String.toList_ofList]
    split
    · exact h
    · split
      · exact List.not_mem_append (fun mem => h (List.mem_of_mem_take mem)) dotted
      · exact fun mem => h (List.mem_of_mem_take mem)
  · exact h

theorem unbroken_shownTexts (columns : List Column) {values : List Value}
    (h : ∀ value ∈ values, Unbroken value.text) :
    ∀ cell ∈ shownTexts columns values, Unbroken cell := by
  intro cell hc
  obtain ⟨⟨column, value⟩, hp, rfl⟩ := List.mem_map.mp hc
  exact unbroken_shown (h value (List.of_mem_zip hp).2) column

end Columns

/-! ## Tables -/

namespace Output

open Columns

/-- A table: its columns, the values of each row, and what stands below it. -/
structure Table where
  columns : List Column
  rows : List (List Value)
  footer : List String

def instanceValues (i : Instance) : List Value :=
  [⟨i.id, true⟩, ⟨i.status, true⟩, ⟨dashed i.cloudProvider, false⟩, ⟨dashed i.region, false⟩,
    ⟨dashed i.createdAt, true⟩]

def snapshotValues (s : Snapshot) : List Value :=
  [⟨s.id, true⟩, ⟨s.status, true⟩, ⟨dashed (s.progress.map percent), false⟩,
    ⟨dashed s.snapshotType, false⟩, ⟨dashed s.createdTime, true⟩]

def serverValues (entry : String × Server) : List Value :=
  [⟨entry.1, true⟩, ⟨entry.2.commandLine, true⟩]

/-- The table that an output is written as; a list of nothing is none. -/
def table? : Output → Option Table
  | .instances (first :: rest) =>
    let list := first :: rest
    some ⟨instanceColumns, list.map instanceValues, ["", total list.length "instance(s)"]⟩
  | .snapshots _ (first :: rest) =>
    let list := first :: rest
    some ⟨snapshotColumns, list.map snapshotValues, ["", total list.length "snapshot(s)"]⟩
  | .servers (first :: rest) => some ⟨serverColumns, (first :: rest).map serverValues, []⟩
  | _ => none

def Table.line (table : Table) (values : List Value) : String :=
  row table.columns (shownTexts table.columns values)

def Table.lines (table : Table) : List String :=
  headings table.columns :: rule '─' (tableWidth table.columns) ::
    table.rows.map table.line ++ table.footer

/-- What all tables have in common: their headings fit, a row has a value for each column, and
nothing but the values may have line ends. -/
structure Table.Regular (table : Table) : Prop where
  fits : Fits table.columns (table.columns.map (·.heading))
  length : ∀ values ∈ table.rows, values.length = table.columns.length
  titles : ∀ column ∈ table.columns, Unbroken column.heading
  footer : ∀ line ∈ table.footer, Unbroken line

variable {output : Output} {table : Table}

theorem fit_dashed (width : Nat) (value : Option String) (wide : 1 ≤ width) :
    dashed (value.map (fit width)) = fit width (dashed value) := by
  cases value with
  | some text => rfl
  | none =>
    have dash : fitChars width ['-'] = ['-'] := if_pos wide
    unfold fit
    exact (congrArg String.ofList dash).symm

theorem table_append {α : Type} {columns : List Column} {cells : α → List String}
    {values : α → List Value} (shows : ∀ a, cells a = shownTexts columns (values a))
    (list : List α) (footer : List String) :
    Output.table columns (list.map cells) ++ footer =
      Table.lines ⟨columns, list.map values, footer⟩ := by
  unfold Output.table Table.lines
  rw [funext shows, List.map_map, List.map_map]
  rfl

theorem instanceRow_eq (i : Instance) :
    instanceRow i = shownTexts instanceColumns (instanceValues i) := by
  unfold instanceRow
  rw [fit_dashed 20 _ (by decide)]
  rfl

theorem snapshotRow_eq (s : Snapshot) :
    snapshotRow s = shownTexts snapshotColumns (snapshotValues s) := by
  unfold snapshotRow
  rw [fit_dashed 20 _ (by decide)]
  rfl

theorem table?_eq_some (tabled : output.table? = some table) :
    (∃ first rest, output = .instances (first :: rest) ∧
        table = ⟨instanceColumns, (first :: rest).map instanceValues,
          ["", total (rest.length + 1) "instance(s)"]⟩) ∨
      (∃ instanceId first rest, output = .snapshots instanceId (first :: rest) ∧
        table = ⟨snapshotColumns, (first :: rest).map snapshotValues,
          ["", total (rest.length + 1) "snapshot(s)"]⟩) ∨
      ∃ first rest, output = .servers (first :: rest) ∧
        table = ⟨serverColumns, (first :: rest).map serverValues, []⟩ := by
  unfold table? at tabled
  split at tabled
  · next first rest => exact .inl ⟨first, rest, rfl, (Option.some.inj tabled).symm⟩
  · next instanceId first rest =>
    exact .inr (.inl ⟨instanceId, first, rest, rfl, (Option.some.inj tabled).symm⟩)
  · next first rest => exact .inr (.inr ⟨first, rest, rfl, (Option.some.inj tabled).symm⟩)
  · cases tabled

theorem lines_of_table? (tabled : output.table? = some table) : output.lines = table.lines := by
  obtain ⟨first, rest, rfl, rfl⟩ | ⟨-, first, rest, rfl, rfl⟩ | ⟨first, rest, rfl, rfl⟩ :=
    table?_eq_some tabled
  · exact table_append instanceRow_eq (first :: rest) _
  · exact table_append snapshotRow_eq (first :: rest) _
  · have rows := @table_append _ serverColumns serverRow serverValues (fun _ => rfl)
      (first :: rest) []
    rw [List.append_nil] at rows
    exact rows

theorem unbroken_total (n : Nat) {what : String} (h : Unbroken what) : Unbroken (total n what) := by
  have digits : Unbroken (toString n) := by
    have written : (toString n).toList = Nat.toDigits 10 n := String.toList_ofList
    have all : ∀ c ∈ Nat.toDigits 10 n, c.isDigit = true :=
      fun c hc => Nat.isDigit_of_mem_toDigits (by decide) (by decide) hc
    unfold Unbroken
    rw [written]
    exact fun mem => absurd (all _ mem) (by decide)
  unfold total
  exact (((by decide : Unbroken "Total: ").append digits).append (by decide)).append h

theorem regular_map {α : Type} {columns : List Column} {values : α → List Value}
    (fits : Fits columns (columns.map (·.heading)))
    (length : ∀ a, (values a).length = columns.length)
    (titles : ∀ column ∈ columns, Unbroken column.heading) (list : List α) {footer : List String}
    (below : ∀ line ∈ footer, Unbroken line) :
    Table.Regular ⟨columns, list.map values, footer⟩ where
  fits := fits
  length row hr := by
    obtain ⟨a, -, rfl⟩ := List.mem_map.mp hr
    exact length a
  titles := titles
  footer := below

theorem regular_of_table? (tabled : output.table? = some table) : table.Regular := by
  have below (n : Nat) {what : String} (h : Unbroken what) :
      ∀ line ∈ ["", total n what], Unbroken line :=
    List.forall_mem_cons.mpr ⟨by decide, by simpa using unbroken_total n h⟩
  obtain ⟨first, rest, -, rfl⟩ | ⟨-, first, rest, -, rfl⟩ | ⟨first, rest, -, rfl⟩ :=
    table?_eq_some tabled
  · exact regular_map (by decide) (fun _ => rfl) (by decide) (first :: rest) (below _ (by decide))
  · exact regular_map (by decide) (fun _ => rfl) (by decide) (first :: rest) (below _ (by decide))
  · exact regular_map (by decide) (fun _ => rfl) (by decide) (first :: rest) nofun

/-- All values in a table of servers are cut. -/
theorem cut_of_servers {list : List (String × Server)}
    (tabled : (Output.servers list).table? = some table) {values : List Value}
    (hv : values ∈ table.rows) {value : Value} (hvalue : value ∈ values) : value.cut := by
  obtain ⟨_, _, other, -⟩ | ⟨_, _, _, other, -⟩ | ⟨first, rest, -, rfl⟩ := table?_eq_some tabled
  · cases other
  · cases other
  · obtain ⟨entry, -, rfl⟩ := List.mem_map.mp hv
    simp only [serverValues, List.mem_cons, List.not_mem_nil, or_false] at hvalue
    obtain rfl | rfl := hvalue <;> rfl

theorem splitOn_table (tabled : output.table? = some table)
    (unbroken : ∀ values ∈ table.rows, ∀ value ∈ values, Unbroken value.text) :
    (output.write .table .unbounded).1.text.toList.splitOn '\n' =
      table.lines.map (·.toList) ++ [[]] := by
  have regular := regular_of_table? tabled
  have written : (output.write .table .unbounded).1.text =
      String.join (table.lines.map (· ++ "\n")) := by
    have bytes (s : String) : (Text.Sink.unbounded.taken ++ Text.utf8 s).toList = Text.utf8 s := by
      simp [Text.Sink.unbounded]
    unfold write writeLines
    dsimp only
    rw [Text.Sink.writeAll_unbounded _ rfl, lines_of_table? tabled]
    unfold Text.Sink.text
    dsimp only
    rw [bytes, Text.ofUtf8Lossy_utf8]
  rw [written]
  refine Text.splitOn_join fun line hl => ?_
  unfold Table.lines at hl
  rw [List.cons_append, List.cons_append, List.mem_cons, List.mem_cons, List.mem_append] at hl
  obtain rfl | rfl | hl | hl := hl
  · refine unbroken_row _ fun cell hc => ?_
    obtain ⟨column, hcolumn, rfl⟩ := List.mem_map.mp hc
    exact regular.titles column hcolumn
  · unfold Unbroken rule
    rw [String.toList_ofList]
    exact fun mem => absurd (List.eq_of_mem_replicate mem) (by decide)
  · obtain ⟨values, hv, rfl⟩ := List.mem_map.mp hl
    exact unbroken_row _ (unbroken_shownTexts _ (unbroken values hv))
  · exact regular.footer line hl

/-- Where the columns of every table start, for values without line ends. The table is written line
by line: the headings, a rule, a row for each entry. In a row each value stands at the start of its
column, filled to it; a value that is cut is shown whole if the column has room for it, and else by
a leading part and three dots. A row starts its columns where the headings start if and only if the
values that are not cut stay in their columns, the last one apart; servers have no such values. -/
theorem aligned_iff (tabled : output.table? = some table)
    (unbroken : ∀ values ∈ table.rows, ∀ value ∈ values, Unbroken value.text) :
    let titles := starts table.columns (table.columns.map (·.heading))
    (output.write .table .unbounded).1.text.toList.splitOn '\n' =
        (headings table.columns :: rule '─' (tableWidth table.columns) ::
          table.rows.map table.line ++ table.footer).map (·.toList) ++ [[]] ∧
      ∀ values ∈ table.rows,
        let places := starts table.columns (shownTexts table.columns values)
        (∀ (i : Nat) (column : Column) (value : Value),
          table.columns[i]? = some column → values[i]? = some value →
            ∃ front shown back, (table.line values).toList =
                front ++ (column.fill shown).toList ++ back ∧
              places[i]? = some front.length ∧ value.ShownAs column shown) ∧
        (places = titles ↔ ∀ pair ∈ (table.columns.zip values).dropLast, pair.2.Stays pair.1) ∧
        ∀ list, output = .servers list → places = titles := by
  have regular := regular_of_table? tabled
  intro titles
  refine ⟨splitOn_table tabled unbroken, fun values hv => ?_⟩
  have length := regular.length values hv
  have texts : (shownTexts table.columns values).length = table.columns.length := by
    simp [shownTexts, length]
  have aligned : starts table.columns (shownTexts table.columns values) = titles ↔ _ :=
    (startsFrom_eq_iff texts (List.length_map _) regular.fits).trans (fits_shownTexts_iff _ _)
  refine ⟨?_, aligned, ?_⟩
  · intro i column value hcolumn hvalue
    have both : (table.columns.zip values)[i]? = some (column, value) :=
      List.getElem?_zip_eq_some.mpr ⟨hcolumn, hvalue⟩
    have hshown : (shownTexts table.columns values)[i]? = some (value.shown column) := by
      unfold shownTexts
      rw [List.getElem?_map, both]
      rfl
    obtain ⟨front, back, whole, place⟩ := @row_eq_append _ _ 0 _ _ _ hcolumn hshown
    rw [Nat.zero_add] at place
    exact ⟨front, value.shown column, back, whole, place, value.shownAs_shown column⟩
  · rintro list rfl
    refine aligned.mpr fun pair hp => .inl ?_
    exact cut_of_servers tabled hv (List.of_mem_zip ((List.dropLast_prefix _).subset hp)).2

/-- A long identifier is cut and shifts nothing; a long cloud is not, and shifts what follows. -/
theorem aligned_iff_long :
    let long : Instance := ⟨"instance-in-the-first-region", "RUNNING", none, some "aws",
      some "us-east-2", none, none, []⟩
    let wide : Instance := { long with cloudProvider := some "azure-stack" }
    let table : Table := ⟨instanceColumns, [instanceValues long, instanceValues wide],
      ["", total 2 "instance(s)"]⟩
    let titles := starts instanceColumns (instanceColumns.map (·.heading))
    (Output.instances [long, wide]).table? = some table ∧
      (∀ values ∈ table.rows, ∀ value ∈ values, Unbroken value.text) ∧
      starts instanceColumns (shownTexts instanceColumns (instanceValues long)) = titles ∧
      starts instanceColumns (shownTexts instanceColumns (instanceValues wide)) ≠ titles := by
  intro long wide table titles
  have tabled : (Output.instances [long, wide]).table? = some table := rfl
  have unbroken : ∀ values ∈ table.rows, ∀ value ∈ values, Unbroken value.text := by decide
  obtain ⟨-, rows⟩ := aligned_iff tabled unbroken
  obtain ⟨-, aligned, -⟩ := rows (instanceValues long) (by decide)
  obtain ⟨-, shifted, -⟩ := rows (instanceValues wide) (by decide)
  refine ⟨tabled, unbroken, aligned.mpr (by decide), fun same => ?_⟩
  exact absurd (shifted.mp same) (by decide)

/-- Values of printable characters do not keep a table aligned: the region and the time of creation
of an instance start to the right of their headings if its cloud is too long, and the type of a
snapshot shifts its time of creation. -/
theorem starts_shifted :
    let i : Instance := ⟨"i-1", "RUNNING", none, some "azure-stack", some "westeurope", none,
      none, []⟩
    let s : Snapshot := ⟨"s-1", "COMPLETE", some 100, some "pre-upgrade", none, none, none, none⟩
    (∀ value ∈ instanceValues i ++ snapshotValues s,
        ∀ c ∈ value.text.toList, 32 ≤ c.toNat ∧ c.toNat < 127) ∧
      starts instanceColumns (instanceColumns.map (·.heading)) = [0, 26, 40, 50, 66] ∧
      starts instanceColumns (instanceRow i) = [0, 26, 40, 53, 69] ∧
      starts snapshotColumns (snapshotColumns.map (·.heading)) = [0, 26, 40, 50, 62] ∧
      starts snapshotColumns (snapshotRow s) = [0, 26, 40, 50, 63] := by
  intro i s
  have printable : (instanceValues i ++ snapshotValues s).all (fun value =>
      value.text.toList.all fun c => 32 ≤ c.toNat && c.toNat < 127) := by decide
  refine ⟨fun value hv c hc => ?_, by decide, by decide, by decide, by decide⟩
  have inside := List.all_eq_true.mp (List.all_eq_true.mp printable value hv) c hc
  simpa using inside

end Output

end FleetControl
