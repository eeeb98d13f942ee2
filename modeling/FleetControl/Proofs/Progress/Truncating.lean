import FleetControl.Progress.Terminal

/-!
# A terminal whose writer runs full

The same calls are made on two terminals, one over a writer that takes `n` bytes in all and one over
a writer that never fails.

1. `Terminal.Writes` is a step that writes the same pieces to every writer and, if they are taken,
   leaves the same terminal behind. Every call is such a step (`writes_apply`).
2. `Terminal.Truncated` relates the two terminals: the bounded writer holds the first `n` bytes of
   the other one, and as long as these are all, the terminals differ in nothing else. Afterwards
   their states go apart, but then the bounded writer has no room left (`Truncated.apply`).
3. `Terminal.run_bounded` is the result for all calls. No call looks for a row that is not there,
   whether the writer fails or not (`Indexed.apply`).
-/

namespace FleetControl

/-! ## Writers -/

namespace Text.Sink

/-- The writer that was offered the same, but takes `n` bytes in all. -/
def limited (sink : Sink) (n : Nat) : Sink :=
  ⟨some (n - sink.taken.size), (sink.taken.toList.take n).toArray⟩

variable {sink : Sink} {n : Nat}

theorem size_le_write (sink : Sink) (text : String) :
    sink.taken.size ≤ (sink.write text).1.taken.size := by
  rw [← Array.length_toList, ← Array.length_toList, taken_write, List.length_append]
  omega

/-- Up to its limit a limited writer takes a text as the other one does. -/
theorem write_limited (room : sink.room = none) (fits : sink.taken.size ≤ n) (text : String) :
    (sink.limited n).write text =
      ((sink.write text).1.limited n, decide ((sink.write text).1.taken.size ≤ n)) := by
  rw [write_unbounded text room]
  have all : sink.taken.toList.take n = sink.taken.toList :=
    List.take_of_length_le (by simpa using fits)
  have size : (sink.taken ++ utf8 text).size = sink.taken.size + (utf8 text).length := by
    rw [← Array.length_toList]
    simp
  have left : (utf8 text).length ≤ n - sink.taken.size ↔
      sink.taken.size + (utf8 text).length ≤ n := by omega
  unfold limited write
  simp [all, size, left, List.take_append, ← Array.toList_inj]
  omega

/-- Past its limit it takes nothing, whatever the other one takes. -/
theorem write_limited_full (full : n ≤ sink.taken.size) (text other : String) :
    ((sink.limited n).write text).1 = (sink.write other).1.limited n := by
  have grows := size_le_write sink other
  have kept : (sink.write other).1.taken.toList.take n = sink.taken.toList.take n := by
    rw [taken_write, List.take_append_of_le_length (by simpa using full)]
  have spent : n - (sink.write other).1.taken.size = 0 := by omega
  unfold limited
  rw [kept, spent, Nat.sub_eq_zero_of_le full]
  simp [write]

end Text.Sink

namespace Terminal

/-! ## What a step writes -/

/-- The terminal over another writer. -/
def onto (t : Terminal) (sink : Text.Sink) : Terminal := { t with sink }

/-- A step that writes one text, whatever writer the terminal has, and leaves one and the same
terminal behind if it is taken. -/
def Writes (step : Terminal → Terminal) (t : Terminal) : Prop :=
  ∃ text next, ∀ sink : Text.Sink, (step (t.onto sink)).sink = (sink.write text).1 ∧
    ((sink.write text).2 = true → step (t.onto sink) = onto next (sink.write text).1)

variable {s t : Terminal} {step other : Terminal → Terminal}

theorem Writes.congr (writes : Writes other s)
    (same : ∀ sink, step (t.onto sink) = other (s.onto sink)) : Writes step t := by
  obtain ⟨text, next, spec⟩ := writes
  refine ⟨text, next, fun sink => ?_⟩
  rw [same]
  exact spec sink

theorem writes_nothing (same : ∀ sink, step (t.onto sink) = t.onto sink) : Writes step t := by
  refine ⟨"", t, fun sink => ?_⟩
  have empty : sink.write "" = (sink, true) := by
    rw [← String.join_nil, ← Text.Sink.writeAll_eq_write]
    rfl
  rw [same, empty]
  exact ⟨rfl, fun _ => rfl⟩

theorem writes_id (t : Terminal) : Writes id t := writes_nothing fun _ => rfl

theorem writes_then (t : Terminal) (pieces : List String) (change : Terminal → Terminal)
    (keeps : ∀ sink, change (t.onto sink) = (change t).onto sink) (later : Writes step (change t)) :
    Writes (fun t => let (t, ok) := t.write pieces; if ok then step (change t) else t) t := by
  obtain ⟨text, next, spec⟩ := later
  refine ⟨String.join pieces ++ text, next, fun sink => ?_⟩
  have first : (t.onto sink).write pieces =
      (t.onto (sink.write (String.join pieces)).1, (sink.write (String.join pieces)).2) := by
    unfold write
    rw [← Text.Sink.writeAll_eq_write]
    rfl
  rw [Text.Sink.write_append]
  dsimp only
  rw [first]
  generalize sink.write (String.join pieces) = result
  obtain ⟨sink, ok⟩ := result
  cases ok with
  | false => exact ⟨rfl, nofun⟩
  | true =>
    dsimp only
    rw [if_pos rfl, keeps]
    exact spec sink

theorem writes_redraw (t : Terminal) : Writes redraw t := by
  have drawn := writes_then t (climbPieces t.drawn ++ t.rows.flatMap (rowPieces t.frame))
    (fun t => { t with drawn := min t.rows.length maxClimb }) (fun _ => rfl) (writes_id _)
  exact drawn.congr fun _ => rfl

theorem writes_noteAbove (t : Terminal) (text : String) : Writes (noteAbove · text) t := by
  have noted := writes_then t
    (climbPieces t.drawn ++ [columnZero, clearBelow] ++ glyph yellow "!" ++ [" ", text, "\n"])
    (fun t => { t with drawn := 0 }) (fun _ => rfl) (writes_redraw _)
  exact noted.congr fun _ => rfl

theorem writes_line (t : Terminal) (symbol text : String) : Writes (line · symbol text) t := by
  have written := writes_then t [symbol ++ " " ++ text ++ "\n"] id (fun _ => rfl) (writes_id _)
  refine written.congr fun sink => ?_
  unfold line
  simp only [id, ite_self]

theorem writes_draw (t : Terminal) (symbol text : String) : Writes (draw · symbol text) t := by
  cases interactive : t.interactive with
  | true => exact (writes_redraw t).congr fun _ => if_pos interactive
  | false =>
    exact (writes_line t symbol text).congr fun _ => if_neg (by simp [onto, interactive])

/-- What a call writes does not depend on the writer, and neither does what it leaves behind if that
is taken. -/
theorem writes_apply (t : Terminal) (call : Call) : Writes (apply · call) t := by
  cases call with
  | create key text =>
    exact (writes_draw { t with
      rows := t.rows ++ [⟨text, none⟩]
      index := (key, t.rows.length) :: t.index } "○" text).congr fun _ => rfl
  | update key text =>
    cases place : t.rowOf? key with
    | none =>
      refine writes_nothing fun sink => ?_
      have place : (t.onto sink).rowOf? key = none := place
      simp only [apply, place]
    | some i =>
      have place (sink : Text.Sink) : (t.onto sink).rowOf? key = some i := place
      cases there : t.rows[i]? with
      | none =>
        refine writes_nothing fun sink => ?_
        have there : (t.onto sink).rows[i]? = none := there
        simp only [apply, place, there]
      | some row =>
        have there (sink : Text.Sink) : (t.onto sink).rows[i]? = some row := there
        by_cases same : row.text = text
        · refine writes_nothing fun sink => ?_
          simp only [apply, place, there, if_pos same]
        · refine (writes_draw (t.setRow i { row with text }) "◐" text).congr fun sink => ?_
          simp only [apply, place, there, if_neg same]
          rfl
  | resolve key outcome text =>
    cases place : t.rowOf? key with
    | none =>
      refine writes_nothing fun sink => ?_
      have place : (t.onto sink).rowOf? key = none := place
      simp only [apply, place]
    | some i =>
      refine (writes_draw (t.setRow i ⟨text, some outcome⟩) (outcomeStyle outcome).2 text).congr
        fun sink => ?_
      have place : (t.onto sink).rowOf? key = some i := place
      simp only [apply, place]
      rfl
  | note text =>
    cases interactive : t.interactive with
    | true => exact (writes_noteAbove t text).congr fun _ => if_pos interactive
    | false =>
      exact (writes_line t "!" text).congr fun _ => if_neg (by simp [onto, interactive])
  | tick =>
    cases moves : t.interactive && t.isSpinning with
    | true =>
      exact (writes_redraw { t with frame := (t.frame + 1) % frameRange }).congr
        fun _ => if_pos moves
    | false =>
      refine writes_nothing fun sink => if_neg ?_
      rw [Bool.not_eq_true]
      exact moves

/-! ## The two terminals -/

/-- A terminal over a writer without bound, and one over a writer that takes `n` bytes, after the
same calls. -/
structure Truncated (n : Nat) (full cut : Terminal) : Prop where
  room : full.sink.room = none
  sink : cut.sink = full.sink.limited n
  same : full.sink.taken.size ≤ n → cut = full.onto (full.sink.limited n)

theorem Truncated.apply {n : Nat} {full cut : Terminal} (h : Truncated n full cut) (call : Call) :
    Truncated n (full.apply call) (cut.apply call) := by
  obtain ⟨text, next, writes⟩ := writes_apply full call
  obtain ⟨own, left⟩ := writes full.sink
  have taken := Text.Sink.write_unbounded text h.room
  have room : (full.apply call).sink.room = none := by
    rw [show (full.apply call).sink = _ from own, taken]
    exact h.room
  have whole : full.apply call = next.onto (full.sink.write text).1 := left (by rw [taken])
  by_cases fits : full.sink.taken.size ≤ n
  · -- the calls so far were taken whole, so the two terminals write the same
    obtain ⟨limited, leaves⟩ := writes (full.sink.limited n)
    rw [← h.same fits, Text.Sink.write_limited h.room fits text] at limited leaves
    refine ⟨room, ?_, fun again => ?_⟩
    · rw [whole]
      exact limited
    · rw [whole] at again ⊢
      exact leaves (decide_eq_true again)
  · -- they may write different texts, but there is no room for either
    have used : n ≤ full.sink.taken.size := Nat.le_of_not_le fits
    obtain ⟨text', _, writes'⟩ := writes_apply cut call
    have stuck : (cut.apply call).sink = (cut.sink.write text').1 := (writes' cut.sink).1
    refine ⟨room, ?_, fun again => ?_⟩
    · rw [stuck, h.sink, whole]
      exact Text.Sink.write_limited_full used text' text
    · rw [whole] at again
      exact absurd (Nat.le_trans (Text.Sink.size_le_write full.sink text) again) fits

/-! ## Rows -/

/-- Every key that has a row has one that is there. -/
def Indexed (t : Terminal) : Prop :=
  ∀ key i, t.rowOf? key = some i → i < t.rows.length

@[simp] theorem rows_redraw (t : Terminal) : t.redraw.rows = t.rows := by
  unfold redraw write
  dsimp only
  split <;> rfl

@[simp] theorem index_redraw (t : Terminal) : t.redraw.index = t.index := by
  unfold redraw write
  dsimp only
  split <;> rfl

theorem Indexed.congr {t next : Terminal} (h : Indexed t) (rows : next.rows.length = t.rows.length)
    (index : next.index = t.index) : Indexed next := by
  intro key i place
  rw [rows]
  unfold rowOf? at place
  rw [index] at place
  exact h key i place

theorem Indexed.draw {t : Terminal} (h : Indexed t) (symbol text : String) :
    Indexed (t.draw symbol text) := by
  unfold Terminal.draw
  split
  · exact h.congr (by rw [rows_redraw]) (index_redraw t)
  · exact h.congr rfl rfl

theorem Indexed.noteAbove {t : Terminal} (h : Indexed t) (text : String) :
    Indexed (t.noteAbove text) := by
  unfold Terminal.noteAbove write
  dsimp only
  split
  · exact h.congr (by rw [rows_redraw]) (index_redraw _)
  · exact h.congr rfl rfl

theorem Indexed.create {t : Terminal} (h : Indexed t) (key : String) (row : Row) :
    Indexed { t with rows := t.rows ++ [row], index := (key, t.rows.length) :: t.index } := by
  intro k i place
  have longer : (t.rows ++ [row]).length = t.rows.length + 1 := List.length_append
  have place : ((key, t.rows.length) :: t.index).lookup k = some i := place
  rw [List.lookup_cons] at place
  rw [longer]
  cases own : k == key with
  | true =>
    rw [own] at place
    cases place
    exact Nat.lt_succ_self _
  | false =>
    rw [own] at place
    exact Nat.lt_succ_of_lt (h k i place)

theorem Indexed.setRow {t : Terminal} (h : Indexed t) (i : Nat) (row : Row) :
    Indexed (t.setRow i row) :=
  h.congr (List.length_set ..) rfl

theorem Indexed.apply {t : Terminal} (h : Indexed t) (call : Call) : Indexed (t.apply call) := by
  cases call with
  | create key text => exact (h.create key _).draw _ _
  | update key text =>
    simp only [Terminal.apply]
    split
    · exact h
    · split
      · exact h
      · split
        · exact h
        · exact (h.setRow _ _).draw _ _
  | resolve key outcome text =>
    simp only [Terminal.apply]
    split
    · exact h
    · exact (h.setRow _ _).draw _ _
  | note text =>
    simp only [Terminal.apply]
    split
    · exact h.noteAbove text
    · exact h.congr rfl rfl
  | tick =>
    simp only [Terminal.apply]
    split
    · exact h.congr (by rw [rows_redraw]) (index_redraw _)
    · exact h

/-! ## Whole runs -/

theorem Truncated.run {n : Nat} {full cut : Terminal} (h : Truncated n full cut)
    (calls : List Call) : Truncated n (full.run calls) (cut.run calls) := by
  induction calls generalizing full cut with
  | nil => exact h
  | cons call rest ih => exact ih (h.apply call)

theorem Indexed.run {t : Terminal} (h : Indexed t) (calls : List Call) : Indexed (t.run calls) := by
  induction calls generalizing t with
  | nil => exact h
  | cons call rest ih => exact ih (h.apply call)

/-- A writer that takes `n` bytes in all and fails every write after that gets the first `n` bytes
of what the same calls write to one that never fails, wherever the limit falls. At each call every
row that is looked up by its key is there, so that no call fails over it. -/
theorem run_bounded (interactive : Bool) (calls : List Call) (n : Nat) :
    let full := (new interactive .unbounded).run calls
    let cut := (new interactive (.bounded n)).run calls
    cut.sink.taken.toList = full.sink.taken.toList.take n ∧
      ∀ past, past <+: calls → ∀ key i,
        ((new interactive (.bounded n)).run past).rowOf? key = some i →
          i < ((new interactive (.bounded n)).run past).rows.length := by
  intro full cut
  have start : Truncated n (new interactive .unbounded) (new interactive (.bounded n)) := by
    have empty : Text.Sink.bounded n = Text.Sink.unbounded.limited n := by
      simp [Text.Sink.limited, Text.Sink.bounded, Text.Sink.unbounded]
    exact ⟨rfl, empty, fun _ => by rw [empty]; rfl⟩
  constructor
  · have sink : cut.sink = full.sink.limited n := (start.run calls).sink
    rw [sink]
    rfl
  · intro past _
    have none : Indexed (new interactive (.bounded n)) := nofun
    exact none.run past

/-- A limit inside the glyph of the first line, which is all that is written. -/
theorem run_bounded_glyph :
    let calls : List Call := [.create "a" "one", .resolve "a" .success "two"]
    let cut := (new false (.bounded 2)).run calls
    calls <+: calls ∧ cut.rowOf? "a" = some 0 ∧ 0 < cut.rows.length ∧
      cut.sink.taken.toList = [0xe2, 0x97] := by
  intro calls cut
  have place : cut.rowOf? "a" = some 0 := by decide +kernel
  obtain ⟨taken, rows⟩ := run_bounded false calls 2
  refine ⟨List.prefix_rfl, place, rows calls List.prefix_rfl "a" 0 place, ?_⟩
  rw [show cut.sink.taken.toList = _ from taken]
  decide +kernel

end Terminal

end FleetControl
