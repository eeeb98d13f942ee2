import FleetControl.Proofs.Poll.Turn

/-!
# How a run gets to a fetch

1. `State.past` is where a run stands after replies that passed, and `passed` is what they leave in
   the trace, each with the pause after it. `Lasts` says that the clock of the process reaches the
   end of these pauses.
2. A run that starts a fetch got past all replies before it: none of them cancelled it, and it goes
   on from there (`go_advance`). What it did last is then a single turn (`go_last`).
3. A run that nothing cancels gets past replies that pass as long as the clock lasts (`go_past`).
-/

namespace FleetControl

namespace Run

/-- The time that replies and the pauses after them take. -/
def spent (cadence : Cadence) : List Reply → Nat
  | [] => 0
  | reply :: rest => reply.delay + cadence.interval + spent cadence rest

/-- Whether every pause after these replies ends before the clock of the process does; `now` is
the time on it before the first of them. -/
def Lasts (cadence : Cadence) (now : Nat) (replies : List Reply) : Prop :=
  replies = [] ∨ now + spent cadence replies < clockEnd

instance (cadence : Cadence) (now : Nat) (replies : List Reply) :
    Decidable (Lasts cadence now replies) :=
  inferInstanceAs (Decidable (_ ∨ _))

/-- Where a run stands after several replies that passed. -/
def State.past (cadence : Cadence) (state : State) (replies : List Reply) : State :=
  replies.foldl (State.next cadence) state

/-- What replies that pass leave in the trace of a run, each with the pause after it. -/
def passed (cadence : Cadence) (board : Board) : List Reply → List Moment
  | [] => []
  | reply :: rest =>
    .fetch :: (reply.calls board).map .call ++
      ticks cadence (reply.boardAfter board) cadence.interval ++
      passed cadence (reply.boardAfter board) rest

theorem spent_cons (cadence : Cadence) (reply : Reply) (rest : List Reply) :
    spent cadence (reply :: rest) = reply.delay + cadence.interval + spent cadence rest := rfl

theorem lasts_cons {cadence : Cadence} {now : Nat} {reply : Reply} {rest : List Reply} :
    Lasts cadence now (reply :: rest) ↔
      now + reply.delay + cadence.interval < clockEnd ∧
        Lasts cadence (now + reply.delay + cadence.interval) rest := by
  unfold Lasts
  rw [spent_cons]
  cases rest with
  | nil => simp [spent, Nat.add_assoc]
  | cons next rest =>
    simp only [reduceCtorEq, false_or]
    omega

theorem passes_of_mem_takeWhile {replies : List Reply} {reply : Reply}
    (h : reply ∈ replies.takeWhile Reply.passes) : reply.passes :=
  List.all_eq_true.mp List.all_takeWhile reply h

theorem stops_dropWhile (replies : List Reply) :
    ∀ reply ∈ (replies.dropWhile Reply.passes).head?, reply.passes = false := by
  intro last hl
  have first := List.head?_dropWhile_not Reply.passes replies
  rw [Option.mem_def.mp hl] at first
  simpa using first

namespace State

theorem past_cons (cadence : Cadence) (state : State) (reply : Reply) (rest : List Reply) :
    state.past cadence (reply :: rest) = (state.next cadence reply).past cadence rest := rfl

theorem time_past (cadence : Cadence) (state : State) (replies : List Reply) :
    (state.past cadence replies).time = state.time + spent cadence replies := by
  induction replies generalizing state with
  | nil => rfl
  | cons reply rest ih =>
    have next : (state.next cadence reply).time = state.time + reply.delay + cadence.interval := rfl
    rw [past_cons, ih, next, spent_cons]
    omega

theorem polls_past (cadence : Cadence) (state : State) (replies : List Reply) :
    (state.past cadence replies).polls = state.polls + UInt32.ofNat replies.length := by
  induction replies generalizing state with
  | nil => exact (UInt32.add_zero _).symm
  | cons reply rest ih =>
    have next : (state.next cadence reply).polls = state.polls + 1 := rfl
    rw [past_cons, ih, next, count_succ, List.length_cons]

theorem token_past (cadence : Cadence) (state : State) (replies : List Reply) :
    (state.past cadence replies).cancel = state.cancel := by
  induction replies generalizing state with
  | nil => rfl
  | cons reply rest ih => exact ih (state.next cadence reply)

end State

theorem cancelledAt_of_quiet {cancel : Option Nat} (quiet : cancel = none) (time : Nat) :
    cancelledAt cancel time = false := by
  rw [quiet]
  rfl

/-! ## The turns of a run -/

theorem after_append (xs ys : List Moment) (run : Run) :
    after (xs ++ ys) run = after xs (after ys run) := by
  unfold after
  rw [List.append_assoc]

theorem go_cancelled (cadence : Cadence) (clock : Nat) {state : State} (replies : List Reply)
    (asleep : cancelledAt state.cancel state.time) :
    go cadence clock state replies = ⟨cancelled, state.time, []⟩ := by
  cases replies with
  | nil => rw [go, if_pos asleep]
  | cons reply rest => rw [go, if_pos asleep]

theorem fetches_after_turn (cadence : Cadence) (calls : List Call) (board : Board) (length : Nat)
    (run : Run) :
    (after (.fetch :: calls.map .call ++ ticks cadence board length) run).fetches =
      run.fetches + 1 := by
  obtain ⟨n, -, ht⟩ := exists_ticks cadence board length
  unfold fetches after
  rw [ht]
  simp [List.filter_map, Function.comp_def]

theorem fetches_passed (cadence : Cadence) (board : Board) (replies : List Reply) (run : Run) :
    (after (passed cadence board replies) run).fetches = replies.length + run.fetches := by
  induction replies generalizing board with
  | nil => exact (Nat.zero_add _).symm
  | cons reply rest ih =>
    rw [passed, after_append, fetches_after_turn, ih, List.length_cons]
    omega

theorem Turned.fetches_stop {cadence : Cadence} {clock : Nat} {state : State} {reply : Reply}
    {run : Run} (turned : Turned cadence clock state reply (.stop run)) : run.fetches = 1 := by
  have shown (ending : Ending) (elapsed : Nat) (board : Board) (length : Nat) :
      fetches ⟨ending, elapsed, shownBy state reply ++ ticks cadence board length⟩ = 1 := by
    have one := fetches_after_turn cadence
      (applyResult state.board (state.polls + 1) reply.result).calls board length
      ⟨ending, elapsed, []⟩
    rwa [after, List.append_nil] at one
  cases turned with
  | abandoned moment token early => rfl
  | concluded conclusion awake decided => simpa [ticks_zero] using shown _ _ [] 0
  | clockEnded awake passes late => simpa [ticks_zero] using shown _ _ [] 0
  | returned awake passes inTime cancels => simpa [ticks_zero] using shown _ _ [] 0
  | interrupted passes inTime quiet moment token later within => exact shown _ _ _ _

theorem fetches_pos_iff (cadence : Cadence) (clock : Nat) (state : State) (replies : List Reply) :
    0 < (go cadence clock state replies).fetches ↔ cancelledAt state.cancel state.time = false := by
  constructor
  · intro started
    rw [← Bool.not_eq_true]
    intro asleep
    rw [go_cancelled cadence clock replies asleep] at started
    exact absurd started (Nat.lt_irrefl 0)
  · intro awake
    cases replies with
    | nil =>
      rw [go, awake]
      exact Nat.one_pos
    | cons reply rest =>
      obtain ⟨run, turned, whole⟩ | ⟨-, -, -, whole⟩ := go_turn cadence clock reply rest awake
      · rw [whole, turned.fetches_stop]
        exact Nat.one_pos
      · rw [whole, shownBy, fetches_after_turn]
        exact Nat.succ_pos _

/-- A reply that passes goes before what the rest of a run leaves. -/
theorem after_passed {cadence : Cadence} {state : State} {reply : Reply} (earlier : List Reply)
    (run : Run) (passes : reply.passes) :
    after (shownBy state reply ++
        ticks cadence (reply.boardAfter state.board) cadence.interval)
      (after (passed cadence (reply.boardAfter state.board) earlier) run) =
      after (passed cadence state.board (reply :: earlier)) run := by
  unfold after shownBy
  rw [applyResult_of_passes passes, passed]
  simp only [List.append_assoc]

/-- A run that starts a fetch got past the replies before it, and goes on from there. -/
theorem go_advance (cadence : Cadence) (clock : Nat) {state : State} {replies : List Reply}
    {i : Nat} (started : i < (go cadence clock state replies).fetches) :
    go cadence clock state replies =
        after (passed cadence state.board (replies.take i))
          (go cadence clock (state.past cadence (replies.take i)) (replies.drop i)) ∧
      cancelledAt (state.past cadence (replies.take i)).cancel
        (state.past cadence (replies.take i)).time = false ∧
      ∀ reply ∈ replies.take i, reply.passes ∧ reply.cancels = false := by
  -- each fetch but the first is started by a later turn, from the state that the first turn left
  induction i generalizing state replies with
  | zero => exact ⟨rfl, (fetches_pos_iff cadence clock state replies).mp started, nofun⟩
  | succ i ih =>
    have awake := (fetches_pos_iff cadence clock state replies).mp (Nat.zero_lt_of_lt started)
    cases replies with
    | nil =>
      rw [go, awake] at started
      exact absurd started (Nat.not_lt.mpr (Nat.le_add_left 1 i))
    | cons reply rest =>
      obtain ⟨run, turned, whole⟩ | ⟨passes, quiet, -, whole⟩ :=
        go_turn cadence clock reply rest awake
      · rw [whole, turned.fetches_stop] at started
        exact absurd started (Nat.not_lt.mpr (Nat.le_add_left 1 i))
      · rw [whole, shownBy, fetches_after_turn] at started
        obtain ⟨later, awake, before⟩ := ih (Nat.lt_of_succ_lt_succ started)
        rw [List.take_succ_cons, List.drop_succ_cons, State.past_cons]
        refine ⟨?_, awake, List.forall_mem_cons.mpr ⟨⟨passes, quiet⟩, before⟩⟩
        rw [whole, later]
        exact after_passed _ _ passes

/-- How a run comes to its end: it is cancelled before its first fetch, or it gets to a last fetch
past replies that passed, and this fetch has no reply or its turn ends the run. -/
theorem go_last (cadence : Cadence) (clock : Nat) (state : State) (replies : List Reply) :
    cancelledAt state.cancel state.time ∧
        go cadence clock state replies = ⟨cancelled, state.time, []⟩ ∨
      ∃ n last, (go cadence clock state replies).fetches = n + 1 ∧
        go cadence clock state replies =
          after (passed cadence state.board (replies.take n)) last ∧
        (∀ reply ∈ replies.take n, reply.passes) ∧
        (replies.length ≤ n ∧
            last = ⟨cancelled, (state.past cadence (replies.take n)).time, [.fetch]⟩ ∨
          ∃ reply, replies[n]? = some reply ∧
            Turned cadence clock (state.past cadence (replies.take n)) reply (.stop last)) := by
  cases count : (go cadence clock state replies).fetches with
  | zero =>
    have asleep : cancelledAt state.cancel state.time := by
      rw [← Bool.not_eq_false, ← fetches_pos_iff cadence clock state replies, count]
      exact Nat.lt_irrefl 0
    exact .inl ⟨asleep, go_cancelled cadence clock replies asleep⟩
  | succ n =>
    obtain ⟨whole, awake, before⟩ :=
      go_advance cadence clock (Nat.lt_of_lt_of_eq (Nat.lt_succ_self n) count.symm)
    refine .inr ⟨n, _, rfl, whole, fun reply hr => (before reply hr).1, ?_⟩
    cases left : replies.drop n with
    | nil =>
      rw [go, awake]
      exact .inl ⟨List.drop_eq_nil_iff.mp left, rfl⟩
    | cons reply rest =>
      have here : replies[n]? = some reply := by
        rw [← List.head?_drop, left, List.head?_cons]
      have inside : n < replies.length := (List.getElem?_eq_some_iff.mp here).1
      obtain ⟨run, turned, ends⟩ | ⟨-, -, still, goes⟩ := go_turn cadence clock reply rest awake
      · exact .inr ⟨reply, here, ends ▸ turned⟩
      · -- a further fetch would have been counted
        have further := (fetches_pos_iff cadence clock _ rest).mpr still
        rw [whole, left, goes, fetches_passed, shownBy, fetches_after_turn, List.length_take]
          at count
        omega

/-- Replies that pass are applied one after the other, as long as nothing cancels the run and the
clock lasts. -/
theorem go_past (cadence : Cadence) (clock : Nat) (state : State) (earlier rest : List Reply)
    (quiet : state.cancel = none) (uncancelled : ∀ reply ∈ earlier, reply.cancels = false)
    (passes : ∀ reply ∈ earlier, reply.passes)
    (lasts : Lasts cadence (clock + state.time) earlier) :
    go cadence clock state (earlier ++ rest) =
      after (passed cadence state.board earlier)
        (go cadence clock (state.past cadence earlier) rest) := by
  induction earlier generalizing state with
  | nil => rfl
  | cons reply earlier ih =>
    rw [List.forall_mem_cons] at uncancelled passes
    -- the bound on the clock splits as the replies do: this pause, then the later ones
    obtain ⟨inTime, lasts⟩ := lasts_cons.mp lasts
    have turned : Turned cadence clock state reply _ :=
      .continued passes.1 (by omega) uncancelled.1 (cancelledAt_of_quiet quiet _)
    have later := ih (state.next cadence reply) quiet uncancelled.2 passes.2
      (by simpa only [State.next, Nat.add_assoc] using lasts)
    rw [List.cons_append, turned.go_next (cancelledAt_of_quiet quiet _), later, State.past_cons]
    exact after_passed earlier _ passes.1

end Run

end FleetControl
