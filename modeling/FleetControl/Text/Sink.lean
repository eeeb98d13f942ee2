import FleetControl.Text.Bytes

/-!
# A writer that may run full

A `Sink` takes bytes until its room is used up; from then on every write fails.

1. `Sink.write` takes as much of a text as there is room for and says whether it took all of it.
2. `writeAll_eq_write` says that several texts are taken as one; `taken_write` and `taken_writeAll`
   state what writes add: a leading part of the bytes of the texts, all of them exactly when the
   writes succeed.
3. `writeAll_unbounded` says that a sink without bound takes everything.
-/

namespace FleetControl.Text

/-- A writer with the bytes it has taken; `room` is how many more it takes, `none` without bound. -/
structure Sink where
  room : Option Nat
  taken : Array UInt8
  deriving DecidableEq, Repr, Inhabited

namespace Sink

def unbounded : Sink := ⟨none, #[]⟩

/-- A sink that takes `n` bytes in all. -/
def bounded (n : Nat) : Sink := ⟨some n, #[]⟩

/-- Takes as many bytes of a text as there is room for; the flag is false if some were refused. -/
def write (sink : Sink) (s : String) : Sink × Bool :=
  let bytes := utf8 s
  match sink.room with
  | none => ({ sink with taken := sink.taken ++ bytes }, true)
  | some n =>
    let kept := bytes.take n
    ({ room := some (n - kept.length), taken := sink.taken ++ kept }, bytes.length ≤ n)

/-- Writes several texts in turn and stops at the first that is not taken whole. -/
def writeAll (sink : Sink) : List String → Sink × Bool
  | [] => (sink, true)
  | s :: rest =>
    match sink.write s with
    | (sink, true) => sink.writeAll rest
    | (sink, false) => (sink, false)

/-- All that was taken, read as a text. -/
def text (sink : Sink) : String :=
  ofUtf8Lossy sink.taken.toList

/-! ## Small lemmas -/

theorem taken_write (sink : Sink) (s : String) :
    (sink.write s).1.taken.toList =
      sink.taken.toList ++ (utf8 s).take (sink.room.getD (utf8 s).length) := by
  unfold write
  cases sink.room <;> simp

theorem write_succeeds_iff (sink : Sink) (s : String) :
    (sink.write s).2 = true ↔ ∀ n, sink.room = some n → (utf8 s).length ≤ n := by
  unfold write
  cases sink.room <;> simp

theorem write_append (sink : Sink) (s t : String) :
    sink.write (s ++ t) =
      match sink.write s with
      | (sink, true) => sink.write t
      | (sink, false) => (sink, false) := by
  obtain ⟨room, taken⟩ := sink
  unfold write
  rw [utf8_append]
  cases room with
  | none => simp [← Array.toList_inj]
  | some n =>
    dsimp only
    by_cases fits : (utf8 s).length ≤ n
    · rw [decide_eq_true fits]
      have left : (utf8 t).length ≤ n - (utf8 s).length ↔ (utf8 s ++ utf8 t).length ≤ n := by
        rw [List.length_append]
        omega
      simp [List.take_append, List.take_of_length_le fits, left, Nat.sub_sub, ← Array.toList_inj]
    · rw [decide_eq_false fits]
      have short : n - (utf8 s).length = 0 := by omega
      simp [List.take_append, short]
      omega

/-- Several texts are taken as one. -/
theorem writeAll_eq_write (sink : Sink) (texts : List String) :
    sink.writeAll texts = sink.write (String.join texts) := by
  induction texts generalizing sink with
  | nil =>
    obtain ⟨room, taken⟩ := sink
    cases room <;> simp [writeAll, write, utf8]
  | cons text rest ih =>
    rw [String.join_cons, write_append, writeAll]
    split <;> simp_all

theorem taken_writeAll (sink : Sink) (texts : List String) :
    (sink.writeAll texts).1.taken.toList = sink.taken.toList ++
      (utf8 (String.join texts)).take (sink.room.getD (utf8 (String.join texts)).length) := by
  rw [writeAll_eq_write, taken_write]

theorem writeAll_succeeds_iff (sink : Sink) (texts : List String) :
    (sink.writeAll texts).2 = true ↔
      ∀ n, sink.room = some n → (utf8 (String.join texts)).length ≤ n := by
  rw [writeAll_eq_write, write_succeeds_iff]

theorem write_unbounded {sink : Sink} (text : String) (h : sink.room = none) :
    sink.write text = ({ sink with taken := sink.taken ++ utf8 text }, true) := by
  unfold write
  simp only [h]

theorem writeAll_unbounded {sink : Sink} (texts : List String) (h : sink.room = none) :
    sink.writeAll texts =
      ({ sink with taken := sink.taken ++ utf8 (String.join texts) }, true) := by
  rw [writeAll_eq_write, write_unbounded _ h]

end Sink

end FleetControl.Text
