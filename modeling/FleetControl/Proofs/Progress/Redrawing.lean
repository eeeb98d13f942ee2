import FleetControl.Proofs.Progress.Rows
import FleetControl.Proofs.Progress.Screen

/-!
# The rows on the screen

A terminal writes to a screen that was blank. What is proved:

1. `shows_redraw`, `shows_noteAbove`: what the two ways of drawing leave on the screen, where notes
   and rows were shown before.
2. `Terminal.Faithful` is the invariant: the terminal knows its rows, the screen shows them below
   the notes, and `drawn` is how many there are. Every call keeps it (`Faithful.step`).
3. `Terminal.display_shows`: so the screen shows the calls, whatever they were, and no call looks
   for a row that is not there.
-/

namespace FleetControl

namespace Terminal

open Recording Screen

/-! ## What is written -/

/-- The line of a row: the tick or the cross of its outcome, or else a frame of the animation. -/
def rowLine (turn : Nat) (row : Row) : List Cell :=
  match row.outcome with
  | none => markedLine cyan (frames.getD (turn % 10) "") row.text
  | some .success => markedLine green "✓" row.text
  | some .error => markedLine red "✗" row.text

/-- The lines that calls leave on a screen: one for each note, then one for each row. -/
def picture (calls : List Call) : List (List Cell) :=
  (notes calls).map (markedLine yellow "!") ++ (rowsOf calls).map (rowLine (turns calls))

/-- What is seen on a screen, blank before, of all that a writer took. -/
def seen (returns : Bool) (sink : Text.Sink) : Screen :=
  (Screen.blank returns).read sink.text

/-- A writer that never fails, and that took nothing but texts. -/
structure Open (sink : Text.Sink) : Prop where
  room : sink.room = none
  bytes : sink.taken.toList = Text.utf8 sink.text

theorem clean_frames (turn : Nat) : Clean (frames.getD (turn % 10) "") := by
  have all : ∀ i < 10, Clean (frames.getD i "") := by decide
  exact all _ (Nat.mod_lt _ (by decide))

variable {returns : Bool} {t : Terminal}

theorem write_open (isOpen : Open t.sink) (pieces : List String) :
    ∃ sink, t.write pieces = ({ t with sink }, true) ∧ Open sink ∧
      ∀ returns, seen returns sink = pieces.foldl read (seen returns t.sink) := by
  obtain ⟨sink, same⟩ : ∃ sink : Text.Sink,
      sink = { t.sink with taken := t.sink.taken ++ Text.utf8 (String.join pieces) } := ⟨_, rfl⟩
  have bytes : sink.taken.toList = Text.utf8 (t.sink.text ++ String.join pieces) := by
    rw [Text.utf8_append, ← isOpen.bytes, same]
    simp
  have text : sink.text = t.sink.text ++ String.join pieces := by
    unfold Text.Sink.text at bytes ⊢
    rw [bytes, Text.ofUtf8Lossy_utf8]
  refine ⟨sink, ?_, ⟨?_, ?_⟩, fun returns => ?_⟩
  · unfold write
    rw [Text.Sink.writeAll_unbounded pieces isOpen.room, ← same]
  · rw [same]
    exact isOpen.room
  · rw [text]
    exact bytes
  · unfold seen
    rw [text, read_append, read_join]

theorem shows_rowPieces {s : Screen} {lines : List (List Cell)} {height : Nat}
    (h : s.Shows lines height) (frame : Nat) {row : Row} (clean : Clean row.text) :
    ((rowPieces frame row).foldl read s).Shows (lines ++ [rowLine frame row]) height := by
  obtain ⟨text, outcome⟩ := row
  unfold rowPieces
  cases outcome with
  | none => exact h.redrawn cyan (clean_frames frame) clean
  | some outcome =>
    cases outcome with
    | success => exact h.redrawn green (by decide) clean
    | error => exact h.redrawn red (by decide) clean

theorem shows_rows {rows : List Row} (clean : ∀ row ∈ rows, Clean row.text) {s : Screen}
    {lines : List (List Cell)} {height : Nat} (h : s.Shows lines height) (frame : Nat) :
    ((rows.flatMap (rowPieces frame)).foldl read s).Shows (lines ++ rows.map (rowLine frame))
      height := by
  induction rows generalizing s lines with
  | nil => simpa using h
  | cons row rows ih =>
    obtain ⟨here, later⟩ := List.forall_mem_cons.mp clean
    have rest := ih later (shows_rowPieces h frame here)
    rw [List.flatMap_cons, List.foldl_append]
    simpa using rest

/-- Drawing anew shows all rows where some of them were shown. -/
theorem shows_redraw (isOpen : Open t.sink) {front back : List (List Cell)}
    (shows : (seen returns t.sink).Shows (front ++ back) 0) (drawn : t.drawn = back.length)
    (grows : back.length ≤ t.rows.length) (few : t.rows.length ≤ maxClimb)
    (clean : ∀ row ∈ t.rows, Clean row.text) :
    ∃ sink, t.redraw = { t with sink, drawn := t.rows.length } ∧ Open sink ∧
      (seen returns sink).Shows (front ++ t.rows.map (rowLine t.frame)) 0 := by
  obtain ⟨sink, writes, opened, reads⟩ :=
    write_open isOpen (climbPieces t.drawn ++ t.rows.flatMap (rowPieces t.frame))
  refine ⟨sink, ?_, opened, ?_⟩
  · unfold redraw
    rw [writes]
    dsimp only
    rw [if_pos rfl, Nat.min_eq_left few]
  · rw [reads, List.foldl_append, drawn]
    -- Nothing is cleared below the rows: there are no fewer than before, so they cover what was there.
    exact (shows_rows clean shows.climb t.frame).settle (by simpa using grows)

theorem shows_noteAbove (isOpen : Open t.sink) {front back : List (List Cell)}
    (shows : (seen returns t.sink).Shows (front ++ back) 0) (drawn : t.drawn = back.length)
    (few : t.rows.length ≤ maxClimb) (clean : ∀ row ∈ t.rows, Clean row.text) {text : String}
    (visible : Clean text) :
    ∃ sink, t.noteAbove text = { t with sink, drawn := t.rows.length } ∧ Open sink ∧
      (seen returns sink).Shows
        (front ++ [markedLine yellow "!" text] ++ t.rows.map (rowLine t.frame)) 0 := by
  obtain ⟨sink, writes, opened, reads⟩ := write_open isOpen
    (climbPieces t.drawn ++ [columnZero, clearBelow] ++ glyph yellow "!" ++ [" ", text, "\n"])
  have mark : Clean "!" := by decide
  have noted : (seen returns sink).Shows (front ++ [markedLine yellow "!" text] ++ []) 0 := by
    rw [reads, List.append_assoc, List.append_assoc, List.foldl_append, drawn, List.append_nil]
    exact shows.climb.noted yellow mark visible
  -- The note took the place of the first row, and the rows come below it without a climb.
  have notes : t.noteAbove text = redraw { t with sink, drawn := 0 } := by
    unfold noteAbove
    rw [writes]
    rfl
  obtain ⟨last, redraws, more, again⟩ := @shows_redraw returns { t with sink, drawn := 0 } opened
    _ [] noted rfl (Nat.zero_le _) few clean
  exact ⟨last, by rw [notes, redraws], more, again⟩

/-! ## One call -/

/-- What a terminal knows of the calls that it took. -/
structure Follows (past : List Call) (t : Terminal) : Prop where
  interactive : t.interactive = true
  rows : t.rows = rowsOf past
  clean : ∀ row ∈ t.rows, Clean row.text
  place : ∀ key, t.rowOf? key = lastPlace? key (createdKeys past)
  frame : t.frame = turns past

/-- A terminal that knows its calls and shows them. -/
structure Faithful (returns : Bool) (past : List Call) (t : Terminal) : Prop
    extends Follows past t where
  isOpen : Open t.sink
  drawn : t.drawn = t.rows.length
  shows : (seen returns t.sink).Shows (picture past) 0

variable {past : List Call} {call : Call} {next : Terminal}

theorem Faithful.unchanged (h : Faithful returns past t)
    (rows : rowsOf (past ++ [call]) = rowsOf past) (created : createdKeys [call] = [])
    (noted : notes [call] = []) (still : ¬(call = .tick ∧ t.isSpinning)) :
    Faithful returns (past ++ [call]) t := by
  have turn : turns (past ++ [call]) = turns past := by
    rw [turns_snoc, if_neg]
    · rfl
    · rw [← h.rows]
      exact still
  have keys : createdKeys (past ++ [call]) = createdKeys past := by
    rw [createdKeys_append, created, List.append_nil]
  have same : picture (past ++ [call]) = picture past := by
    unfold picture
    rw [rows, turn, notes_append, noted, List.append_nil]
  refine ⟨⟨h.interactive, ?_, h.clean, ?_, ?_⟩, h.isOpen, h.drawn, ?_⟩
  · rw [rows]
    exact h.rows
  · rw [keys]
    exact h.place
  · rw [turn]
    exact h.frame
  · rw [same]
    exact h.shows

theorem Faithful.redrawn (h : Faithful returns past t) (follows : Follows (past ++ [call]) next)
    (sink : next.sink = t.sink) (drawn : next.drawn = t.drawn)
    (grows : t.rows.length ≤ next.rows.length) (few : next.rows.length ≤ maxClimb)
    (noted : notes [call] = []) : Faithful returns (past ++ [call]) next.redraw := by
  have shows := h.shows
  unfold picture at shows
  rw [← sink] at shows
  obtain ⟨last, redraws, opened, again⟩ := shows_redraw (sink ▸ h.isOpen) shows
    (by rw [drawn, h.drawn, h.rows, List.length_map])
    (by rw [List.length_map, ← h.rows]; exact grows) few follows.clean
  rw [redraws]
  refine ⟨⟨follows.interactive, follows.rows, follows.clean, follows.place, follows.frame⟩, opened,
    rfl, ?_⟩
  unfold picture
  rw [notes_append, noted, List.append_nil, ← follows.rows, ← follows.frame]
  exact again

theorem Follows.length_rows (h : Follows past t) :
    t.rows.length = (createdKeys past).length := by
  rw [h.rows, length_rowsOf]

theorem Follows.lt_length {key : String} {i : Nat} (h : Follows past t)
    (place : t.rowOf? key = some i) : i < t.rows.length := by
  rw [h.place] at place
  rw [h.length_rows]
  exact (List.getElem?_eq_some_iff.mp (spec_lastPlace? place).1).1

theorem Follows.rowsOf_snoc (h : Follows past t) (later : ∀ k, call.creates k = false)
    {key : String} (own : call.key? = some key) {i : Nat} (place : t.rowOf? key = some i) :
    rowsOf (past ++ [call]) = t.rows.modify i call.change := by
  rw [Recording.rowsOf_snoc past later, own]
  simp only [Option.bind_some, ← h.place, place]
  rw [← h.rows]

theorem Follows.change (h : Follows past t) (later : ∀ k, call.creates k = false)
    (idle : call ≠ .tick) {key : String} (own : call.key? = some key) {i : Nat} {row : Row}
    (place : t.rowOf? key = some i) (there : t.rows[i]? = some row)
    (clean : Clean (call.change row).text) :
    Follows (past ++ [call]) (t.setRow i (call.change row)) := by
  have keys : createdKeys (past ++ [call]) = createdKeys past := by
    rw [createdKeys_append, createdKeys_later later, List.append_nil]
  refine ⟨h.interactive, ?_, ?_, fun other => ?_, ?_⟩
  · rw [h.rowsOf_snoc later own place, List.modify_eq_set_getElem?, there]
    rfl
  · intro other member
    rcases List.mem_or_eq_of_mem_set member with old | rfl
    · exact h.clean other old
    · exact clean
  · rw [keys]
    exact h.place other
  · rw [turns_snoc, if_neg fun tick => idle tick.1]
    exact h.frame

theorem Faithful.unknown (h : Faithful returns past t) (later : ∀ k, call.creates k = false)
    {key : String} (own : call.key? = some key) (place : t.rowOf? key = none) :
    Faithful returns (past ++ [call]) t := by
  rw [h.place] at place
  apply h.unchanged
  · rw [rowsOf_snoc past later, own]
    simp only [Option.bind_some, place]
  · exact createdKeys_later later
  · cases call with
    | note => cases own
    | create | update | resolve | tick => rfl
  · rintro ⟨rfl, -⟩
    cases own

theorem draw_of_interactive (interactive : t.interactive = true) (symbol text : String) :
    t.draw symbol text = t.redraw :=
  if_pos interactive

theorem Faithful.create (h : Faithful returns past t) {key text : String} (clean : Clean text)
    (few : (createdKeys (past ++ [.create key text])).length ≤ maxClimb) :
    Faithful returns (past ++ [.create key text]) (t.apply (.create key text)) := by
  have keys : createdKeys (past ++ [.create key text]) = createdKeys past ++ [key] :=
    createdKeys_append ..
  have follows : Follows (past ++ [.create key text])
      { t with rows := t.rows ++ [⟨text, none⟩], index := (key, t.rows.length) :: t.index } := by
    refine ⟨h.interactive, ?_, ?_, fun other => ?_, ?_⟩
    · rw [rowsOf_create, h.rows]
    · intro row member
      rcases List.mem_append.mp member with old | new
      · exact h.clean row old
      · cases List.mem_singleton.mp new
        exact clean
    · rw [keys, lastPlace?_snoc, ← h.length_rows, ← h.place]
      unfold rowOf?
      rw [List.lookup_cons]
      by_cases same : key = other
      · simp [same]
      · simp [same, beq_eq_false_iff_ne.mpr (Ne.symm same)]
    · rw [turns_snoc, if_neg (by simp)]
      exact h.frame
  unfold apply
  dsimp only
  rw [draw_of_interactive follows.interactive]
  exact h.redrawn follows rfl rfl (by simp) (by rw [follows.length_rows]; exact few) rfl

theorem Faithful.change (h : Faithful returns past t) (call : Call)
    (later : ∀ k, call.creates k = false) (idle : call ≠ .tick) {key : String}
    (own : call.key? = some key) {i : Nat} {row : Row} (place : t.rowOf? key = some i)
    (there : t.rows[i]? = some row)
    (clean : Clean (call.change row).text) (few : t.rows.length ≤ maxClimb) :
    Faithful returns (past ++ [call]) (t.setRow i (call.change row)).redraw := by
  have length : (t.setRow i (call.change row)).rows.length = t.rows.length := List.length_set
  refine h.redrawn (h.toFollows.change later idle own place there clean) rfl rfl
    (Nat.le_of_eq length.symm) (length ▸ few) ?_
  cases call with
  | note => cases own
  | create | update | resolve | tick => rfl

theorem Faithful.update (h : Faithful returns past t) {key text : String} (clean : Clean text)
    (few : t.rows.length ≤ maxClimb) :
    Faithful returns (past ++ [.update key text]) (t.apply (.update key text)) := by
  unfold apply
  dsimp only
  cases place : t.rowOf? key with
  | none => exact h.unknown (fun _ => rfl) rfl place
  | some i =>
    have there := List.getElem?_eq_getElem (h.lt_length place)
    dsimp only
    rw [there]
    dsimp only
    split
    · next same =>
      -- The text is the one that is shown, so that the row stays as it is.
      refine h.unchanged ?_ rfl rfl (by simp)
      rw [h.toFollows.rowsOf_snoc (fun _ => rfl) rfl place, ← h.rows,
        List.modify_eq_set_getElem?, there, ← same]
      exact List.set_getElem_self _
    · rw [draw_of_interactive (t := t.setRow _ _) h.interactive]
      exact h.change (.update key text) (fun _ => rfl) nofun rfl place there clean few

theorem Faithful.resolve (h : Faithful returns past t) {key text : String} (outcome : Outcome)
    (clean : Clean text) (few : t.rows.length ≤ maxClimb) :
    Faithful returns (past ++ [.resolve key outcome text])
      (t.apply (.resolve key outcome text)) := by
  unfold apply
  dsimp only
  cases place : t.rowOf? key with
  | none => exact h.unknown (fun _ => rfl) rfl place
  | some i =>
    have there := List.getElem?_eq_getElem (h.lt_length place)
    dsimp only
    rw [draw_of_interactive (t := t.setRow _ _) h.interactive]
    exact h.change (.resolve key outcome text) (fun _ => rfl) nofun rfl place there clean few

theorem Faithful.note (h : Faithful returns past t) {text : String} (clean : Clean text)
    (few : t.rows.length ≤ maxClimb) :
    Faithful returns (past ++ [.note text]) (t.apply (.note text)) := by
  have rows : rowsOf (past ++ [.note text]) = rowsOf past := rowsOf_snoc past fun _ => rfl
  have keys : createdKeys (past ++ [.note text]) = createdKeys past := by
    rw [createdKeys_append]
    exact List.append_nil _
  have turn : turns (past ++ [.note text]) = turns past := by
    rw [turns_snoc, if_neg (by simp)]
    rfl
  obtain ⟨sink, noted, opened, shows⟩ := shows_noteAbove h.isOpen h.shows
    (by rw [h.drawn, h.rows, List.length_map]) few h.clean clean
  unfold apply
  dsimp only
  rw [if_pos h.interactive, noted]
  refine ⟨⟨h.interactive, ?_, h.clean, ?_, ?_⟩, opened, rfl, ?_⟩
  · rw [rows]
    exact h.rows
  · rw [keys]
    exact h.place
  · rw [turn]
    exact h.frame
  · unfold picture
    rw [rows, turn, notes_append, List.map_append, ← h.rows, ← h.frame]
    exact shows

theorem Faithful.tick (h : Faithful returns past t) (few : t.rows.length ≤ maxClimb)
    (short : (past ++ [Call.tick]).count .tick < frameRange) :
    Faithful returns (past ++ [.tick]) (t.apply .tick) := by
  have rows : rowsOf (past ++ [.tick]) = rowsOf past := rowsOf_snoc past fun _ => rfl
  have keys : createdKeys (past ++ [.tick]) = createdKeys past := by
    rw [createdKeys_append]
    exact List.append_nil _
  unfold apply
  dsimp only
  have spinning : (t.interactive && t.isSpinning) = t.isSpinning := by
    rw [h.interactive, Bool.true_and]
  rw [spinning]
  split
  · next spins =>
    have turn : turns (past ++ [.tick]) = turns past + 1 := by
      rw [turns_snoc, if_pos]
      rw [← h.rows]
      exact ⟨rfl, spins⟩
    -- The counter of the frames wraps round, but not before so many ticks.
    have small : t.frame + 1 < frameRange := by
      rw [h.frame, ← turn]
      exact Nat.lt_of_le_of_lt (turns_le _) short
    refine h.redrawn ⟨h.interactive, ?_, h.clean, ?_, ?_⟩ rfl rfl (Nat.le_refl _) few rfl
    · rw [rows]
      exact h.rows
    · rw [keys]
      exact h.place
    · rw [turn, ← h.frame]
      exact Nat.mod_eq_of_lt small
  · next still => exact h.unchanged rows rfl rfl fun spins => still spins.2

/-- Every call keeps a terminal faithful. -/
theorem Faithful.step (h : Faithful returns past t) (clean : ∀ text ∈ call.text?, Clean text)
    (few : (createdKeys (past ++ [call])).length ≤ maxClimb)
    (short : (past ++ [call]).count .tick < frameRange) :
    Faithful returns (past ++ [call]) (t.apply call) := by
  have room : t.rows.length ≤ maxClimb := by
    rw [h.length_rows]
    rw [createdKeys_append, List.length_append] at few
    omega
  cases call with
  | create key text => exact h.create (clean text rfl) few
  | update key text => exact h.update (clean text rfl) room
  | resolve key outcome text => exact h.resolve outcome (clean text rfl) room
  | note text => exact h.note (clean text rfl) room
  | tick => exact h.tick room short

/-! ## All calls -/

theorem faithful_new (returns : Bool) : Faithful returns [] (new true .unbounded) := by
  refine ⟨⟨rfl, rfl, nofun, fun key => rfl, rfl⟩, ⟨rfl, rfl⟩, rfl, ?_⟩
  exact Screen.Shows.blank returns

/-- Calls that a terminal can take: with texts free of control characters, with no more creates than
it can climb over and no more ticks than it can count. -/
structure Drawable (calls : List Call) : Prop where
  clean : ∀ call ∈ calls, ∀ text ∈ call.text?, Clean text
  creates : (createdKeys calls).length ≤ 65535
  ticks : calls.count .tick < UInt64.size

theorem Drawable.of_prefix {front calls : List Call} (drawable : Drawable calls)
    (part : front <+: calls) : Drawable front := by
  obtain ⟨back, rfl⟩ := part
  obtain ⟨clean, creates, ticks⟩ := drawable
  rw [createdKeys_append, List.length_append] at creates
  rw [List.count_append] at ticks
  exact ⟨fun call member => clean call (List.mem_append_left _ member), by omega, by omega⟩

/-- A new terminal with a writer that never fails, after these calls. -/
def display (calls : List Call) : Terminal :=
  (new true .unbounded).run calls

theorem faithful_display (returns : Bool) {calls : List Call} (drawable : Drawable calls) :
    Faithful returns calls (display calls) := by
  induction calls using List.reverseRecOn with
  | nil => exact faithful_new returns
  | append_singleton past call ih =>
    have before := drawable.of_prefix (List.prefix_append past [call])
    have here := drawable.clean call (by simp)
    unfold display run at ih ⊢
    rw [List.foldl_append]
    exact (ih before).step here drawable.creates drawable.ticks

theorem apply_unknown (later : ∀ k, call.creates k = false) {key : String}
    (own : call.key? = some key) (place : t.rowOf? key = none) : t.apply call = t := by
  cases call with
  | create k text => simpa [Call.creates] using later k
  | update | resolve =>
    cases own
    simp [apply, place]
  | note | tick => cases own

/-- The screen shows the calls faithfully. All that was written is text, and it leaves one line for
each note, then one for each create, in their order, and nothing else, with the cursor just below.
A call for a key always finds the row that the key opened last; one for a key that was never created
changes nothing at all. -/
theorem display_shows (returns : Bool) {calls : List Call} (drawable : Drawable calls) :
    ((display calls).sink.taken.toList = Text.utf8 (display calls).sink.text ∧
      (seen returns (display calls).sink).cell =
        (fun row => Screen.line ((picture calls).getD row [])) ∧
      (seen returns (display calls).sink).row = (picture calls).length ∧
      (returns = true → (seen returns (display calls).sink).column = 0) ∧
      (seen returns (display calls).sink).colour = none) ∧
    ∀ front call back, calls = front ++ call :: back →
      (∀ key i, (display front).rowOf? key = some i → i < (display front).rows.length ∧
        (createdKeys front)[i]? = some key ∧ key ∉ (createdKeys front).drop (i + 1)) ∧
      ((∀ k, call.creates k = false) → ∀ key, call.key? = some key → key ∉ createdKeys front →
        (display front).apply call = display front) := by
  have done := faithful_display returns drawable
  refine ⟨⟨done.isOpen.bytes, ?_, done.shows.row, ?_, done.shows.colour⟩, ?_⟩
  · funext row
    exact done.shows.cells row (.inr (Nat.zero_le row))
  · intro back
    exact done.shows.column (by rw [seen, returns_read]; exact back)
  · rintro front call back rfl
    have before := faithful_display returns (drawable.of_prefix (List.prefix_append front _))
    refine ⟨fun key i place => ⟨before.lt_length place, ?_⟩, fun later key own absent => ?_⟩
    · rw [before.place] at place
      exact spec_lastPlace? place
    · apply apply_unknown later own
      rw [before.place]
      exact lastPlace?_eq_none.mpr absent

/-- Calls with a key that is created twice, a note above the rows, a row that is resolved and then
updated, and calls for keys that are not there. -/
theorem display_shows_repeated :
    let calls : List Call := [.update "a" "early", .create "a" "one", .create "b" "two", .tick,
      .note "retrying", .create "a" "three", .update "a" "four", .resolve "b" .error "gone",
      .update "b" "still gone", .tick, .resolve "a" .success "five", .update "z" "unknown"]
    Drawable calls ∧
      picture calls = [markedLine yellow "!" "retrying", markedLine cyan "⠹" "one",
        markedLine red "✗" "still gone", markedLine green "✓" "five"] ∧
      (seen false (display calls).sink).cell =
        (fun row => Screen.line ((picture calls).getD row [])) ∧
      (seen false (display calls).sink).row = 4 := by
  intro calls
  have drawable : Drawable calls := ⟨by decide +kernel, by decide +kernel, by decide +kernel⟩
  have lines : picture calls = [markedLine yellow "!" "retrying", markedLine cyan "⠹" "one",
      markedLine red "✗" "still gone", markedLine green "✓" "five"] := by decide +kernel
  obtain ⟨⟨-, cells, row, -⟩, -⟩ := display_shows false drawable
  refine ⟨drawable, lines, cells, ?_⟩
  rw [row, lines]
  rfl

end Terminal

end FleetControl
