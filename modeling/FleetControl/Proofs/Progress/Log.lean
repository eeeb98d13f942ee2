import FleetControl.Proofs.Progress.Rows
import FleetControl.Proofs.Text.Lines
import Mathlib.Data.List.Destutter

/-!
# The log of a plain stream

Where nothing can be drawn in place, each change of a spinner is a line of its own.

1. `Recording.log` are the lines that calls leave, read from the calls alone. An update leaves one
   only if its text is not the one that the key showed last.
2. `Terminal.Keeps` is the invariant of a display that draws nothing in place. Every call keeps it
   and writes the line of the call (`Keeps.apply`), so that such a display writes the log:
   `Terminal.keeps_plainDisplay`. Updates to the text shown last leave it as it is:
   `Keeps.run_updates`.
3. The lines of a key depend on the calls of this key alone (`log_ofKey`). Over the life of a
   spinner they are its first text, then its texts without repetitions, then how it was resolved:
   `Lifecycle.log_eq`.
4. `LogLine.splitOn_allWritten`: lines without line ends in them can be read back.
-/

namespace FleetControl

/-- A line of a log: the key that it is about, or none if it is a note, its mark and its text. -/
structure LogLine where
  owner : Option String
  mark : String
  text : String
  deriving DecidableEq, Repr

namespace LogLine

def opened (key text : String) : LogLine := ⟨some key, "○", text⟩

def changed (key text : String) : LogLine := ⟨some key, "◐", text⟩

def settled (key : String) (outcome : Outcome) (text : String) : LogLine :=
  ⟨some key, (Terminal.outcomeStyle outcome).2, text⟩

def noted (text : String) : LogLine := ⟨none, "!", text⟩

def shown (line : LogLine) : String := line.mark ++ " " ++ line.text

def written (line : LogLine) : String := line.shown ++ "\n"

def allWritten (lines : List LogLine) : String := String.join (lines.map written)

end LogLine

namespace Recording

/-- The line that a call leaves after the calls before it. -/
def lineOf? (past : List Call) : Call → Option LogLine
  | .create key text => some (.opened key text)
  | .update key text =>
    if key ∈ createdKeys past ∧ lastText? past key ≠ some text then some (.changed key text)
    else none
  | .resolve key outcome text =>
    if key ∈ createdKeys past then some (.settled key outcome text) else none
  | .note text => some (.noted text)
  | .tick => none

/-- The lines of calls that were made after others. -/
def logAfter (past : List Call) : List Call → List LogLine
  | [] => []
  | call :: rest => (lineOf? past call).toList ++ logAfter (past ++ [call]) rest

/-- The lines of calls. -/
def log (calls : List Call) : List LogLine := logAfter [] calls

/-- The texts that a key showed before it was resolved. -/
def textsOf (key : String) (calls : List Call) : List String :=
  calls.filterMap fun
    | .create k text => if k = key then some text else none
    | .update k text => if k = key then some text else none
    | _ => none

/-- The lines of a spinner that showed these texts: the first one, and each one that is not the text
before it. -/
def changes (key : String) : List String → List LogLine
  | [] => []
  | first :: later =>
    .opened key first :: ((first :: later).destutter (· ≠ ·)).tail.map (.changed key)

/-! ## One more call -/

theorem logAfter_append (past xs ys : List Call) :
    logAfter past (xs ++ ys) = logAfter past xs ++ logAfter (past ++ xs) ys := by
  induction xs generalizing past with
  | nil => simp [logAfter]
  | cons call rest ih => simp [logAfter, ih]

theorem log_snoc (calls : List Call) (call : Call) :
    log (calls ++ [call]) = log calls ++ (lineOf? calls call).toList := by
  unfold log
  rw [logAfter_append]
  simp [logAfter]

theorem lastText?_snoc (calls : List Call) (call : Call) (key : String) :
    lastText? (calls ++ [call]) key =
      if call.key? = some key then call.text? else lastText? calls key := by
  unfold lastText?
  rw [List.foldl_append]
  cases call <;> simp [Call.key?, Call.shown?, Call.text?]

theorem text_change {call : Call} (later : ∀ k, call.creates k = false) {key : String}
    (own : call.key? = some key) (row : Row) : some (call.change row).text = call.text? := by
  cases call with
  | create k text => simpa [Call.creates] using later k
  | update | resolve => rfl
  | note | tick => cases own

theorem eq_create_or (call : Call) :
    (∃ key text, call = .create key text) ∨ ∀ k, call.creates k = false := by
  cases call with
  | create key text => exact .inl ⟨key, text, rfl⟩
  | update | resolve | note | tick => exact .inr fun _ => rfl

theorem lt_length_rowsOf {calls : List Call} {key : String} {i : Nat}
    (place : lastPlace? key (createdKeys calls) = some i) : i < (rowsOf calls).length := by
  rw [length_rowsOf]
  exact (List.getElem?_eq_some_iff.mp (spec_lastPlace? place).1).1

theorem text_rowsOf {calls : List Call} {key : String} {i : Nat}
    (place : lastPlace? key (createdKeys calls) = some i) :
    (rowsOf calls)[i]?.map (·.text) = lastText? calls key := by
  induction calls using List.reverseRecOn generalizing i with
  | nil => cases place
  | append_singleton calls call ih =>
    rw [createdKeys_append] at place
    rw [lastText?_snoc]
    rcases eq_create_or call with ⟨k, text, rfl⟩ | later
    · rw [show createdKeys [.create k text] = [k] from rfl, lastPlace?_snoc] at place
      rw [rowsOf_create, show (Call.create k text).key? = some k from rfl]
      by_cases same : k = key
      · rw [if_pos same] at place
        cases place
        rw [if_pos (congrArg some same), ← length_rowsOf]
        simp [Call.text?]
      · rw [if_neg same] at place
        rw [if_neg (by simpa using same), List.getElem?_append_left (lt_length_rowsOf place)]
        exact ih place
    · rw [createdKeys_later later, List.append_nil] at place
      rw [rowsOf_snoc calls later]
      -- the call is for this row, for another one, or for none
      cases own : call.key? with
      | none => simpa using ih place
      | some k =>
        rw [Option.bind_some]
        by_cases same : k = key
        · subst same
          have there := List.getElem?_eq_getElem (lt_length_rowsOf place)
          rw [place, if_pos rfl]
          simp [there, text_change later own]
        · rw [if_neg (by simpa using same)]
          cases other : lastPlace? k (createdKeys calls) with
          | none => exact ih place
          | some j =>
            have apart : j ≠ i := by
              rintro rfl
              have both := (spec_lastPlace? other).1.symm.trans (spec_lastPlace? place).1
              exact same (Option.some.inj both)
            simpa [List.getElem?_modify_ne _ _ apart] using ih place

end Recording

open Recording

namespace Terminal

/-- What a display that draws nothing in place knows of the calls that it took. -/
structure Keeps (past : List Call) (t : Terminal) : Prop where
  plain : t.interactive = false
  rows : t.rows = rowsOf past
  place : ∀ key, t.rowOf? key = lastPlace? key (createdKeys past)

variable {past : List Call} {t : Terminal} {key : String} {i : Nat}

theorem line_eq (t : Terminal) (owner : Option String) (mark text : String) :
    t.line mark text =
      { t with sink := (t.sink.write (LogLine.mk owner mark text).written).1 } := by
  unfold Terminal.line write Text.Sink.writeAll LogLine.written LogLine.shown
  dsimp only
  cases t.sink.write (mark ++ " " ++ text ++ "\n") with
  | mk sink taken => cases taken <;> rfl

theorem draw_plain (plain : t.interactive = false) (owner : Option String) (mark text : String) :
    t.draw mark text =
      { t with sink := (t.sink.write (LogLine.mk owner mark text).written).1 } := by
  unfold draw
  rw [if_neg (by simp [plain]), line_eq t owner]

theorem Keeps.row (h : Keeps past t) (place : t.rowOf? key = some i) :
    key ∈ createdKeys past ∧ ∃ row, t.rows[i]? = some row ∧ lastText? past key = some row.text := by
  rw [h.place] at place
  obtain ⟨row, there⟩ : ∃ row, (rowsOf past)[i]? = some row :=
    ⟨_, List.getElem?_eq_getElem (lt_length_rowsOf place)⟩
  refine ⟨List.mem_of_getElem? (spec_lastPlace? place).1, row, ?_, ?_⟩
  · rw [h.rows]
    exact there
  · rw [← text_rowsOf place, there]
    rfl

theorem Keeps.rowOf?_eq_none (h : Keeps past t) :
    t.rowOf? key = none ↔ key ∉ createdKeys past := by
  rw [h.place, lastPlace?_eq_none]

section Later

variable {call : Call} {next : Terminal}

theorem Keeps.unchanged (h : Keeps past t) (later : ∀ k, call.creates k = false)
    (absent : ∀ key, call.key? = some key → t.rowOf? key = none)
    (plain : next.interactive = t.interactive) (index : next.index = t.index)
    (rows : next.rows = t.rows) : Keeps (past ++ [call]) next := by
  refine ⟨plain.trans h.plain, ?_, fun key => ?_⟩
  · rw [rows, rowsOf_snoc past later, h.rows]
    cases own : call.key? with
    | none => rfl
    | some key => rw [Option.bind_some, ← h.place, absent key own]
  · rw [createdKeys_append, createdKeys_later later, List.append_nil, ← h.place]
    unfold rowOf?
    rw [index]

theorem Keeps.change (h : Keeps past t) (later : ∀ k, call.creates k = false)
    (own : call.key? = some key) (place : t.rowOf? key = some i) {row : Row}
    (there : t.rows[i]? = some row) (plain : next.interactive = t.interactive)
    (index : next.index = t.index) (rows : next.rows = t.rows.set i (call.change row)) :
    Keeps (past ++ [call]) next := by
  refine ⟨plain.trans h.plain, ?_, fun key => ?_⟩
  · rw [rows, rowsOf_snoc past later, own, Option.bind_some, ← h.place, place, ← h.rows]
    dsimp only
    rw [List.modify_eq_set_getElem?, there]
    rfl
  · rw [createdKeys_append, createdKeys_later later, List.append_nil, ← h.place]
    unfold rowOf?
    rw [index]

end Later

theorem set_own_text {rows : List Row} {row : Row} (there : rows[i]? = some row) {key text : String}
    (same : row.text = text) : rows.set i ((Call.update key text).change row) = rows := by
  obtain ⟨inside, rfl⟩ := List.getElem?_eq_some_iff.mp there
  subst same
  exact List.set_getElem_self inside

/-- A display after the line of a call, if it leaves one. -/
def takeLine (sink : Text.Sink) : Option LogLine → Text.Sink
  | none => sink
  | some line => (sink.write line.written).1

theorem Keeps.apply (h : Keeps past t) (call : Call) :
    Keeps (past ++ [call]) (t.apply call) ∧
      (t.apply call).sink = takeLine t.sink (lineOf? past call) := by
  cases call with
  | create key text =>
    unfold Terminal.apply
    dsimp only
    rw [draw_plain (by exact h.plain) (some key)]
    refine ⟨⟨h.plain, ?_, fun other => ?_⟩, rfl⟩
    · rw [rowsOf_create, ← h.rows]
    · rw [createdKeys_append, show createdKeys [.create key text] = [key] from rfl, lastPlace?_snoc,
        ← length_rowsOf, ← h.rows, ← h.place]
      unfold rowOf?
      rw [List.lookup_cons]
      by_cases same : key = other
      · simp [same]
      · simp [same, beq_eq_false_iff_ne.mpr (Ne.symm same)]
  | update key text =>
    unfold Terminal.apply lineOf?
    dsimp only
    cases place : t.rowOf? key with
    | none =>
      rw [if_neg fun created => h.rowOf?_eq_none.mp place created.1]
      exact ⟨h.unchanged (fun _ => rfl) (by rintro _ ⟨⟩; exact place) rfl rfl rfl, rfl⟩
    | some i =>
      obtain ⟨created, row, there, shows⟩ := h.row place
      dsimp only
      rw [there, shows]
      dsimp only
      by_cases same : row.text = text
      · rw [if_pos same, if_neg (by simp [same])]
        exact ⟨h.change (fun _ => rfl) rfl place there rfl rfl (set_own_text there same).symm, rfl⟩
      · rw [if_neg same, if_pos ⟨created, by simpa using same⟩,
          draw_plain (by exact h.plain) (some key)]
        exact ⟨h.change (fun _ => rfl) rfl place there rfl rfl rfl, rfl⟩
  | resolve key outcome text =>
    unfold Terminal.apply lineOf?
    dsimp only
    cases place : t.rowOf? key with
    | none =>
      rw [if_neg (h.rowOf?_eq_none.mp place)]
      exact ⟨h.unchanged (fun _ => rfl) (by rintro _ ⟨⟩; exact place) rfl rfl rfl, rfl⟩
    | some i =>
      obtain ⟨created, row, there, shows⟩ := h.row place
      dsimp only
      rw [if_pos created, draw_plain (by exact h.plain) (some key)]
      exact ⟨h.change (fun _ => rfl) rfl place there rfl rfl rfl, rfl⟩
  | note text =>
    unfold Terminal.apply
    dsimp only
    rw [if_neg (by simp [h.plain]), line_eq t none]
    exact ⟨h.unchanged (fun _ => rfl) nofun rfl rfl rfl, rfl⟩
  | tick =>
    unfold Terminal.apply
    dsimp only
    rw [if_neg (by simp [h.plain])]
    exact ⟨h.unchanged (fun _ => rfl) nofun rfl rfl rfl, rfl⟩

/-- A display that draws nothing in place, with a writer that never fails, after these calls. -/
def plainDisplay (calls : List Call) : Terminal :=
  (new false .unbounded).run calls

theorem plainDisplay_append (xs ys : List Call) :
    plainDisplay (xs ++ ys) = (plainDisplay xs).run ys :=
  List.foldl_append

theorem takeLine_unbounded {sink : Text.Sink} (room : sink.room = none) (line? : Option LogLine) :
    (takeLine sink line?).room = none ∧ (takeLine sink line?).taken.toList =
      sink.taken.toList ++ Text.utf8 (String.join (line?.toList.map LogLine.written)) := by
  cases line? with
  | none => exact ⟨room, (List.append_nil _).symm⟩
  | some line =>
    unfold takeLine
    dsimp only
    rw [Text.Sink.write_unbounded _ room]
    refine ⟨room, ?_⟩
    simp [String.join]

theorem keeps_plainDisplay (calls : List Call) :
    Keeps calls (plainDisplay calls) ∧ (plainDisplay calls).sink.room = none ∧
      (plainDisplay calls).sink.taken.toList =
        Text.utf8 (LogLine.allWritten (log calls)) := by
  induction calls using List.reverseRecOn with
  | nil => exact ⟨⟨rfl, rfl, fun _ => rfl⟩, rfl, rfl⟩
  | append_singleton past call ih =>
    obtain ⟨keeps, room, taken⟩ := ih
    obtain ⟨next, sink⟩ := keeps.apply call
    obtain ⟨still, more⟩ := takeLine_unbounded room (lineOf? past call)
    rw [plainDisplay_append]
    change Keeps _ ((plainDisplay past).apply call) ∧
      ((plainDisplay past).apply call).sink.room = _ ∧
      ((plainDisplay past).apply call).sink.taken.toList = _
    rw [sink, more, taken, log_snoc, LogLine.allWritten, LogLine.allWritten, List.map_append,
      String.join_append, Text.utf8_append]
    exact ⟨next, still, rfl⟩

/-- An update to the text that its key showed last leaves such a display as it is. -/
theorem Keeps.apply_update (h : Keeps past t) {text : String}
    (same : lastText? past key = some text) : t.apply (.update key text) = t := by
  unfold Terminal.apply
  dsimp only
  cases place : t.rowOf? key with
  | none => rfl
  | some i =>
    obtain ⟨-, row, there, shows⟩ := h.row place
    rw [same] at shows
    dsimp only
    rw [there]
    exact if_pos (Option.some.inj shows).symm

theorem Keeps.run_updates (h : Keeps past t) {calls : List Call}
    (same : ∀ call ∈ calls, ∃ key text, call = .update key text ∧ lastText? past key = some text) :
    t.run calls = t := by
  induction calls with
  | nil => rfl
  | cons call rest ih =>
    rw [List.forall_mem_cons] at same
    obtain ⟨⟨key, text, rfl, last⟩, later⟩ := same
    change (t.apply (.update key text)).run rest = t
    rw [h.apply_update last]
    exact ih later

theorem plainDisplay_updates {calls : List Call} (later : List Call)
    (same : ∀ call ∈ calls, ∃ key text, call = .update key text ∧ lastText? past key = some text) :
    plainDisplay (past ++ calls ++ later) = plainDisplay (past ++ later) := by
  rw [plainDisplay_append, plainDisplay_append, (keeps_plainDisplay past).1.run_updates same,
    plainDisplay_append]

theorem plainDisplay_recorded (calls : List Call) :
    plainDisplay (recorded calls) = plainDisplay calls := by
  induction calls using List.reverseRecOn with
  | nil => rfl
  | append_singleton past call ih =>
    unfold recorded at ih ⊢
    rw [List.filter_append, plainDisplay_append, ih, plainDisplay_append]
    cases call with
    | create | update | resolve | note => rfl
    | tick =>
      have plain := (keeps_plainDisplay past).1.plain
      change plainDisplay past = (plainDisplay past).apply .tick
      unfold Terminal.apply
      dsimp only
      rw [if_neg (by simp [plain])]

end Terminal

/-! ## The lines of one key -/

namespace Recording

variable {key : String}

theorem ofKey_snoc (key : String) (calls : List Call) (call : Call) :
    ofKey key (calls ++ [call]) =
      if call.key? = some key then ofKey key calls ++ [call] else ofKey key calls := by
  rw [ofKey_append]
  by_cases own : call.key? = some key
  · rw [if_pos own]
    simp [ofKey, own]
  · rw [if_neg own]
    simp [ofKey, own]

theorem mem_createdKeys_ofKey (calls : List Call) :
    key ∈ createdKeys (ofKey key calls) ↔ key ∈ createdKeys calls := by
  induction calls using List.reverseRecOn with
  | nil => rfl
  | append_singleton calls call ih =>
    rw [ofKey_snoc, createdKeys_append, List.mem_append, ← ih]
    split
    · rw [createdKeys_append, List.mem_append]
    · next other =>
      have apart : key ∉ createdKeys [call] := by
        rw [mem_createdKeys_cons]
        cases call <;> simp_all [Call.creates, createdKeys, Call.key?, Call.shown?]
      rw [or_iff_left apart]

theorem lastText?_ofKey (calls : List Call) :
    lastText? (ofKey key calls) key = lastText? calls key := by
  induction calls using List.reverseRecOn with
  | nil => rfl
  | append_singleton calls call ih =>
    rw [ofKey_snoc, lastText?_snoc, ← ih]
    split
    · next own => rw [lastText?_snoc, if_pos own]
    · rfl

theorem lastText?_append_of_not_mem (past : List Call) {calls : List Call}
    (h : ∀ call ∈ calls, call.key? ≠ some key) :
    lastText? (past ++ calls) key = lastText? past key := by
  rw [← lastText?_ofKey, ofKey_append_of_not_mem past h, lastText?_ofKey]

def marks : List String := ["○", "◐", "✓", "✗", "!"]

theorem of_lineOf? {past : List Call} {call : Call} {line : LogLine}
    (h : lineOf? past call = some line) :
    line.owner = call.key? ∧ call.text? = some line.text ∧ line.mark ∈ marks := by
  cases call with
  | create key text =>
    cases h
    exact ⟨rfl, rfl, by simp [marks, LogLine.opened]⟩
  | update key text =>
    simp only [lineOf?, Option.ite_none_right_eq_some] at h
    cases h.2
    exact ⟨rfl, rfl, by simp [marks, LogLine.changed]⟩
  | resolve key outcome text =>
    simp only [lineOf?, Option.ite_none_right_eq_some] at h
    cases h.2
    exact ⟨rfl, rfl, by cases outcome <;> simp [marks, LogLine.settled, Terminal.outcomeStyle]⟩
  | note text =>
    cases h
    exact ⟨rfl, rfl, by simp [marks, LogLine.noted]⟩
  | tick => cases h

theorem lineOf?_ofKey {call : Call} (own : call.key? = some key) (calls : List Call) :
    lineOf? (ofKey key calls) call = lineOf? calls call := by
  cases call with
  | create k text => rfl
  | update k text =>
    cases own
    simp only [lineOf?, mem_createdKeys_ofKey, lastText?_ofKey]
  | resolve k outcome text =>
    cases own
    simp only [lineOf?, mem_createdKeys_ofKey]
  | note | tick => cases own

/-- The lines about a key are those that its calls alone leave. -/
theorem log_ofKey (key : String) (calls : List Call) :
    (log calls).filter (·.owner == some key) = log (ofKey key calls) := by
  induction calls using List.reverseRecOn with
  | nil => rfl
  | append_singleton calls call ih =>
    rw [log_snoc, List.filter_append, ih, ofKey_snoc]
    -- a line is about the key of its call, so it stays or goes as the call does
    by_cases own : call.key? = some key
    · rw [if_pos own, log_snoc, lineOf?_ofKey own, List.filter_eq_self.mpr]
      intro line hline
      rw [(of_lineOf? (Option.mem_toList.mp hline)).1, own]
      exact beq_self_eq_true _
    · rw [if_neg own, List.filter_eq_nil_iff.mpr, List.append_nil]
      intro line hline
      rw [(of_lineOf? (Option.mem_toList.mp hline)).1]
      simpa using own

theorem log_notes (calls : List Call) :
    (log calls).filter (·.owner == none) = (notes calls).map .noted := by
  induction calls using List.reverseRecOn with
  | nil => rfl
  | append_singleton calls call ih =>
    rw [log_snoc, List.filter_append, ih, notes_append, List.map_append]
    congr 1
    cases own : call.key? with
    | some key =>
      rw [List.filter_eq_nil_iff.mpr]
      · cases call with
        | note => cases own
        | create | update | resolve | tick => rfl
      · intro line hline
        rw [(of_lineOf? (Option.mem_toList.mp hline)).1, own]
        exact Bool.false_ne_true
    | none =>
      cases call with
      | create | update | resolve => cases own
      | note | tick => rfl

theorem of_mem_log {calls : List Call} {line : LogLine} (h : line ∈ log calls) :
    line.mark ∈ marks ∧ ∃ call ∈ calls, call.text? = some line.text := by
  induction calls using List.reverseRecOn with
  | nil => cases h
  | append_singleton calls call ih =>
    rw [log_snoc, List.mem_append, Option.mem_toList] at h
    rcases h with h | h
    · obtain ⟨mark, earlier, he, text⟩ := ih h
      exact ⟨mark, earlier, List.mem_append_left _ he, text⟩
    · obtain ⟨-, text, mark⟩ := of_lineOf? h
      exact ⟨mark, call, by simp, text⟩

/-! ## Texts without repetitions -/

theorem destutter'_snoc {α : Type} [DecidableEq α] (a : α) (l : List α) (x : α) :
    (l ++ [x]).destutter' (· ≠ ·) a =
      l.destutter' (· ≠ ·) a ++ if (a :: l).getLast? = some x then [] else [x] := by
  induction l generalizing a with
  | nil =>
    by_cases same : a = x <;> simp [List.destutter', same]
  | cons b l ih =>
    rw [List.cons_append, List.destutter'_cons, List.destutter'_cons, ih, ih,
      List.getLast?_cons_cons]
    by_cases same : a = b
    · subst same
      simp
    · simp [same]

/-- A further text leaves a line if it is not the one shown last. -/
theorem changes_snoc {texts : List String} (ne : texts ≠ []) (text : String) :
    changes key (texts ++ [text]) =
      changes key texts ++ if texts.getLast? = some text then [] else [.changed key text] := by
  obtain ⟨first, later, rfl⟩ := List.exists_cons_of_ne_nil ne
  have some_left : (later.destutter' (· ≠ ·) first) ≠ [] := List.destutter'_ne_nil _ _
  unfold changes
  dsimp only [List.cons_append]
  rw [List.destutter_cons', List.destutter_cons', destutter'_snoc,
    List.tail_append_of_ne_nil some_left, List.map_append]
  split <;> rfl

theorem textsOf_append (key : String) (xs ys : List Call) :
    textsOf key (xs ++ ys) = textsOf key xs ++ textsOf key ys :=
  List.filterMap_append ..

theorem textsOf_filter (key : String) {p : Call → Bool} (calls : List Call)
    (kept : ∀ call ∈ calls, call.key? = some key → p call) :
    textsOf key (calls.filter p) = textsOf key calls := by
  unfold textsOf
  rw [List.filterMap_filter]
  refine List.filterMap_congr fun call hc => ?_
  split
  · rfl
  · next dropped =>
    have other := mt (kept call hc) dropped
    cases call with
    | create k text => exact (if_neg fun same => other (congrArg some same)).symm
    | update k text => exact (if_neg fun same => other (congrArg some same)).symm
    | resolve | note | tick => rfl

theorem textsOf_ofKey (key : String) (calls : List Call) :
    textsOf key (ofKey key calls) = textsOf key calls :=
  textsOf_filter key calls fun call _ own => by simp [own]

theorem textsOf_recorded (key : String) (calls : List Call) :
    textsOf key (recorded calls) = textsOf key calls := by
  refine textsOf_filter key calls fun call _ own => ?_
  cases call with
  | tick => cases own
  | create | update | resolve | note => rfl

theorem notes_recorded (calls : List Call) : notes (recorded calls) = notes calls := by
  unfold notes recorded
  rw [List.filterMap_filter]
  refine List.filterMap_congr fun call _ => ?_
  cases call <;> rfl

theorem textsOf_update (calls : List Call) (text : String) :
    textsOf key (calls ++ [.update key text]) = textsOf key calls ++ [text] := by
  rw [textsOf_append]
  simp [textsOf]

end Recording

theorem Lifecycle.live {key : String} {own : List Call} (lives : Lifecycle key (some false) own) :
    key ∈ createdKeys own ∧ textsOf key own ≠ [] ∧
      lastText? own key = (textsOf key own).getLast? := by
  generalize hs : some false = stage at lives
  induction lives with
  | unseen => cases hs
  | created text => simp [createdKeys, textsOf, lastText?, Call.shown?]
  | @updated calls text live ih =>
    obtain ⟨created, -, -⟩ := ih hs
    rw [textsOf_update, lastText?_snoc,
      if_pos (show (Call.update key text).key? = some key from rfl), createdKeys_append]
    exact ⟨List.mem_append_left _ created, by simp, by simp [Call.text?]⟩
  | resolved => cases hs

/-- The lines of a spinner: its first text, then each text that is not the one before it, and in the
end how it was resolved, if it was. -/
theorem Lifecycle.log_eq {key : String} {stage : Option Bool} {own : List Call}
    (lives : Lifecycle key stage own) :
    ∃ last, log own = changes key (textsOf key own) ++ last ∧
      (stage = some true → ∃ outcome text, last = [.settled key outcome text]) ∧
      (stage ≠ some true → last = []) := by
  induction lives with
  | unseen => exact ⟨[], rfl, nofun, fun _ => rfl⟩
  | created text =>
    exact ⟨[], by simp [textsOf, changes, log, logAfter, lineOf?], nofun, fun _ => rfl⟩
  | @updated calls text live ih =>
    obtain ⟨last, lines, -, quiet⟩ := ih
    obtain ⟨created, some_text, shows⟩ := live.live
    refine ⟨[], ?_, nofun, fun _ => rfl⟩
    -- the text that the key showed last is the last one of its texts
    rw [log_snoc, lines, quiet nofun, textsOf_update, changes_snoc some_text, List.append_nil,
      List.append_nil, lineOf?, ← shows]
    by_cases same : lastText? calls key = some text
    · simp [same]
    · simp [same, created]
  | @resolved calls outcome text live ih =>
    obtain ⟨last, lines, -, quiet⟩ := ih
    obtain ⟨created, -, -⟩ := live.live
    have same : textsOf key (calls ++ [.resolve key outcome text]) = textsOf key calls := by
      rw [textsOf_append]
      simp [textsOf]
    refine ⟨[.settled key outcome text], ?_, fun _ => ⟨outcome, text, rfl⟩, fun h => absurd rfl h⟩
    rw [log_snoc, lines, quiet nofun, same, List.append_nil, lineOf?, if_pos created]
    rfl

/-! ## Reading a log -/

/-- A log whose lines are no more than one line each can be read back. -/
theorem LogLine.splitOn_allWritten {lines : List LogLine}
    (h : ∀ line ∈ lines, '\n' ∉ line.shown.toList) :
    (allWritten lines).toList.splitOn '\n' = lines.map (·.shown.toList) ++ [[]] := by
  have whole : allWritten lines = String.join ((lines.map shown).map (· ++ "\n")) := by
    rw [List.map_map]
    rfl
  have split := @Text.splitOn_join (lines.map shown) fun text ht => by
    obtain ⟨line, hl, rfl⟩ := List.mem_map.mp ht
    exact h line hl
  rw [whole, split, List.map_map]
  rfl

end FleetControl
