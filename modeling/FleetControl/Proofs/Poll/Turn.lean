import FleetControl.Poll.Run
import FleetControl.Proofs.Poll.Deciding

/-!
# The turns of a run

1. A reply passes if it ends nothing: the fetch failed, or it did not decide. What it does to a
   board does not depend on how many fetches there were (`applyResult_of_passes`).
2. `Turned` lists what one turn can do: every turn does one of these things (`turned_turn`), and
   only one (`Turned.turn_eq`). `go_turn` says what a run does with it.
3. `Traced` relates the replies that a run applied to its trace, reply by reply, and `go_traced`
   says that every run is traced. Properties of all runs are inductions over `Traced`.
-/

namespace FleetControl

namespace Reply

/-- Whether the run goes on after a reply. -/
def passes (reply : Reply) : Bool :=
  match reply.result with
  | .ok fetch => !fetch.decides
  | .error _ => true

/-- What a reply brings: a fetch, or nothing if it failed. -/
def brings (reply : Reply) : Option Fetch :=
  reply.result.toOption

def entries (reply : Reply) : List Resource :=
  match reply.result with
  | .ok fetch => fetch.shown
  | .error _ => []

def calls (reply : Reply) (board : Board) : List Call :=
  match reply.result with
  | .ok fetch => (observeAll board fetch.shown).2
  | .error error => [.note ("Fetch failed, retrying: " ++ error.message)]

def boardAfter (reply : Reply) (board : Board) : Board :=
  (observeAll board reply.entries).1

/-- Whether the fetch of a reply, if it brings one, lists no key twice. -/
def Distinct (reply : Reply) : Prop :=
  ∀ fetch, reply.result = .ok fetch → fetch.keys.Nodup

theorem passes_eq_false {reply : Reply} :
    reply.passes = false ↔ ∃ fetch, reply.result = .ok fetch ∧ fetch.decides := by
  unfold passes
  cases reply.result with
  | error error => simp
  | ok fetch => simp

theorem result_of_brings {reply : Reply} {fetch : Fetch} (h : reply.brings = some fetch) :
    reply.result = .ok fetch := by
  unfold brings at h
  cases hr : reply.result with
  | error error =>
    rw [hr] at h
    cases h
  | ok other =>
    rw [hr] at h
    cases h
    rfl

theorem passes_of_brings {reply : Reply}
    (h : ∀ fetch, reply.brings = some fetch → fetch.decides = false) : reply.passes := by
  unfold passes
  unfold brings at h
  cases hr : reply.result with
  | error error => rfl
  | ok fetch =>
    rw [hr] at h
    simp [h fetch rfl]

theorem failedKeys_entries {reply : Reply} (h : reply.passes) : failedKeys reply.entries = [] := by
  unfold passes at h
  unfold entries
  cases hr : reply.result with
  | error error => rfl
  | ok fetch =>
    rw [hr] at h
    obtain ⟨record, hw, hf, -⟩ := Fetch.decides_eq_false.mp ((Bool.not_eq_true' _).mp h)
    dsimp only
    unfold Fetch.shown
    rw [hw]
    exact failedKeys_eq_nil hf

theorem nodup_entries {reply : Reply} (h : reply.Distinct) : (reply.entries.map (·.key)).Nodup := by
  unfold entries
  cases hr : reply.result with
  | error error => exact List.nodup_nil
  | ok fetch => exact Fetch.nodup_shown (h fetch hr)

/-- A reply that passes grows the history by its entries and resolves nothing. -/
theorem boardAfter_showing (entries : List Resource) {reply : Reply} (h : reply.passes)
    (distinct : reply.Distinct) :
    reply.boardAfter (.showing entries []) = .showing (entries ++ reply.entries) [] := by
  unfold boardAfter
  rw [observeAll_showing entries _ (nodup_entries distinct) fun _ _ => List.not_mem_nil,
    failedKeys_entries h]
  rfl

end Reply

/-- How a run ends whose replies decided this much. -/
def Ending.Fits (ending : Ending) : Option Conclusion → Prop
  | some conclusion => ending = .concluded conclusion
  | none => ending = Run.cancelled ∨ ending = .clockEnded

namespace Run

/-! ## Counting fetches -/

theorem count_succ (polls : UInt32) (n : Nat) :
    polls + 1 + UInt32.ofNat n = polls + UInt32.ofNat (n + 1) := by
  rw [UInt32.ofNat_add, UInt32.add_assoc, UInt32.add_comm 1]
  rfl

theorem count_ofNat (n : Nat) : UInt32.ofNat n + 1 = UInt32.ofNat (n + 1) := by
  rw [UInt32.ofNat_add]
  rfl

/-! ## One reply -/

theorem applyResult_of_ok {reply : Reply} {fetch : Fetch} (brought : reply.result = .ok fetch)
    (board : Board) (polls : UInt32) :
    applyResult board polls reply.result = Applied.ofFetch board polls fetch := by
  rw [brought]
  rfl

theorem applyResult_of_passes {reply : Reply} (h : reply.passes) (board : Board) (polls : UInt32) :
    applyResult board polls reply.result = ⟨reply.boardAfter board, reply.calls board, none⟩ := by
  unfold Reply.passes at h
  unfold applyResult Reply.boardAfter Reply.entries Reply.calls
  cases hr : reply.result with
  | error error => rfl
  | ok fetch =>
    rw [hr] at h
    obtain ⟨record, hw, hf, ht⟩ := Fetch.decides_eq_false.mp ((Bool.not_eq_true' _).mp h)
    dsimp only
    unfold Applied.ofFetch Fetch.shown
    rw [hw]
    dsimp only
    rw [evaluate_statuses, hf]
    simp [ht]

theorem conclusion_applyResult (board : Board) (polls : UInt32) (reply : Reply) :
    (applyResult board polls reply.result).conclusion = none ↔ reply.passes := by
  constructor
  · intro h
    unfold Reply.passes
    cases hr : reply.result with
    | error error => rfl
    | ok fetch =>
      rw [hr] at h
      have undecided := Applied.conclusion_ofFetch board polls fetch
      rw [show (Applied.ofFetch board polls fetch).conclusion = none from h] at undecided
      simpa using undecided
  · intro h
    rw [applyResult_of_passes h]

/-! ## The calls of a trace -/

def callsOf (trace : List Moment) : List Call :=
  trace.filterMap fun
    | .call call => some call
    | .fetch => none

@[simp] theorem callsOf_fetch (trace : List Moment) : callsOf (.fetch :: trace) = callsOf trace := rfl

@[simp] theorem callsOf_append (xs ys : List Moment) :
    callsOf (xs ++ ys) = callsOf xs ++ callsOf ys :=
  List.filterMap_append ..

@[simp] theorem callsOf_map (calls : List Call) : callsOf (calls.map .call) = calls := by
  unfold callsOf
  rw [List.filterMap_map]
  exact List.filterMap_some

/-! ## One turn -/

/-- The entries of a trace that a fetch leaves when its reply is applied. -/
def shownBy (state : State) (reply : Reply) : List Moment :=
  .fetch :: (applyResult state.board (state.polls + 1) reply.result).calls.map .call

/-- Where a run stands after a reply that passed and the pause after it. -/
def State.next (cadence : Cadence) (state : State) (reply : Reply) : State :=
  ⟨state.time + reply.delay + cadence.interval, state.polls + 1, reply.boardAfter state.board,
    state.cancel⟩

/-- What one turn can do. The reply arrives at `state.time + reply.delay`, and the pause after it
takes `cadence.interval`. -/
inductive Turned (cadence : Cadence) (clock : Nat) (state : State) (reply : Reply) : Turn → Prop
  where
  /-- The fetch was still pending when the run was cancelled. -/
  | abandoned (moment : Nat) (token : state.cancel = some moment)
      (early : moment ≤ state.time + reply.delay) :
      Turned cadence clock state reply (.stop ⟨cancelled, moment, [.fetch]⟩)
  | concluded (conclusion : Conclusion)
      (awake : cancelledAt state.cancel (state.time + reply.delay) = false)
      (decided : (applyResult state.board (state.polls + 1) reply.result).conclusion =
        some conclusion) :
      Turned cadence clock state reply
        (.stop ⟨.concluded conclusion, state.time + reply.delay, shownBy state reply⟩)
  | clockEnded (awake : cancelledAt state.cancel (state.time + reply.delay) = false)
      (passes : reply.passes)
      (late : clockEnd ≤ clock + (state.time + reply.delay) + cadence.interval) :
      Turned cadence clock state reply
        (.stop ⟨.clockEnded, state.time + reply.delay, shownBy state reply⟩)
  /-- The run was cancelled as the reply arrived. -/
  | returned (awake : cancelledAt state.cancel (state.time + reply.delay) = false)
      (passes : reply.passes)
      (inTime : clock + (state.time + reply.delay) + cadence.interval < clockEnd)
      (cancels : reply.cancels) :
      Turned cadence clock state reply
        (.stop ⟨cancelled, state.time + reply.delay, shownBy state reply⟩)
  /-- The run was cancelled in the pause. -/
  | interrupted (passes : reply.passes)
      (inTime : clock + (state.time + reply.delay) + cadence.interval < clockEnd)
      (quiet : reply.cancels = false) (moment : Nat) (token : state.cancel = some moment)
      (later : state.time + reply.delay < moment)
      (within : moment ≤ state.time + reply.delay + cadence.interval) :
      Turned cadence clock state reply
        (.stop ⟨cancelled, moment, shownBy state reply ++
          ticks cadence (reply.boardAfter state.board) (moment - (state.time + reply.delay))⟩)
  | continued (passes : reply.passes)
      (inTime : clock + (state.time + reply.delay) + cadence.interval < clockEnd)
      (quiet : reply.cancels = false)
      (awake : cancelledAt state.cancel (state.time + reply.delay + cadence.interval) = false) :
      Turned cadence clock state reply
        (.next (shownBy state reply ++ ticks cadence (reply.boardAfter state.board) cadence.interval)
          (state.next cadence reply))

theorem cancelledAt_eq_false {cancel : Option Nat} {time : Nat} :
    cancelledAt cancel time = false ↔ cancel.filter (· ≤ time) = none := by
  cases cancel with
  | none => simp [cancelledAt]
  | some moment => simp [cancelledAt, Option.filter]

theorem cancelledAt_of_le {cancel : Option Nat} {time later : Nat}
    (awake : cancelledAt cancel later = false) (before : time ≤ later) :
    cancelledAt cancel time = false := by
  cases cancel with
  | none => rfl
  | some moment =>
    simp only [cancelledAt, Option.any_some, decide_eq_false_iff_not] at awake ⊢
    omega

theorem ticks_zero (cadence : Cadence) (board : Board) : ticks cadence board 0 = [] := by
  have none : cadence.ticksWithin 0 = 0 := by
    unfold Cadence.ticksWithin
    cases cadence.tick with
    | zero => rfl
    | succ n => exact Nat.div_eq_of_lt (by omega)
  unfold ticks
  rw [none]
  exact ite_self _

theorem turn_of_passes (cadence : Cadence) (clock : Nat) {state : State} {reply : Reply}
    (awake : cancelledAt state.cancel (state.time + reply.delay) = false) (passes : reply.passes) :
    turn cadence clock state reply =
      pause cadence clock (state.time + reply.delay) (shownBy state reply)
        ⟨state.time + reply.delay, state.polls + 1, reply.boardAfter state.board,
          if reply.cancels then some (state.time + reply.delay) else state.cancel⟩ := by
  unfold turn shownBy
  dsimp only
  rw [cancelledAt_eq_false.mp awake, applyResult_of_passes passes]

theorem pause_of_inTime {cadence : Cadence} {clock arrival : Nat} (shown : List Moment)
    (state : State) (inTime : clock + arrival + cadence.interval < clockEnd) :
    pause cadence clock arrival shown state =
      match state.cancel.filter (· ≤ arrival + cadence.interval) with
      | some moment =>
        .stop ⟨cancelled, max moment arrival,
          shown ++ ticks cadence state.board (moment - arrival)⟩
      | none =>
        .next (shown ++ ticks cadence state.board cadence.interval)
          { state with time := arrival + cadence.interval } := by
  cases within : state.cancel.filter (· ≤ arrival + cadence.interval) with
  | none => simp only [pause, deadline?, if_pos inTime, within]
  | some moment => simp only [pause, deadline?, if_pos inTime, within]

/-- A turn does what it can do: there is only one such thing. -/
theorem Turned.turn_eq {cadence : Cadence} {clock : Nat} {state : State} {reply : Reply}
    {outcome : Turn} (turned : Turned cadence clock state reply outcome) :
    turn cadence clock state reply = outcome := by
  cases turned with
  | abandoned moment token early =>
    unfold turn
    dsimp only
    rw [token, Option.filter_some, if_pos (by simpa using early)]
  | concluded conclusion awake decided =>
    unfold turn shownBy
    dsimp only
    rw [cancelledAt_eq_false.mp awake, decided]
  | clockEnded awake passes late =>
    rw [turn_of_passes cadence clock awake passes]
    unfold pause deadline?
    rw [if_neg (Nat.not_lt.mpr late)]
  | returned awake passes inTime cancels =>
    rw [turn_of_passes cadence clock awake passes, pause_of_inTime _ _ inTime]
    dsimp only
    rw [if_pos cancels, Option.filter_some, if_pos (by simp)]
    dsimp only
    rw [Nat.max_self, Nat.sub_self, ticks_zero, List.append_nil]
  | interrupted passes inTime quiet moment token later within =>
    have awake : cancelledAt state.cancel (state.time + reply.delay) = false := by
      simpa [cancelledAt, token] using later
    rw [turn_of_passes cadence clock awake passes, pause_of_inTime _ _ inTime]
    dsimp only
    rw [if_neg (by simp [quiet]), token, Option.filter_some, if_pos (by simpa using within)]
    dsimp only
    rw [Nat.max_eq_left (Nat.le_of_lt later)]
  | continued passes inTime quiet awake =>
    have before : cancelledAt state.cancel (state.time + reply.delay) = false :=
      cancelledAt_of_le awake (Nat.le_add_right _ _)
    rw [turn_of_passes cadence clock before passes, pause_of_inTime _ _ inTime]
    dsimp only
    rw [if_neg (by simp [quiet]), cancelledAt_eq_false.mp awake]
    rfl

theorem exists_turned (cadence : Cadence) (clock : Nat) (state : State) (reply : Reply) :
    ∃ outcome, Turned cadence clock state reply outcome := by
  -- what is observed first comes first: the token, the reply, the clock, the token again
  cases early : state.cancel.filter (· ≤ state.time + reply.delay) with
  | some moment =>
    obtain ⟨token, before⟩ := Option.filter_eq_some_iff.mp early
    exact ⟨_, .abandoned moment token (by simpa using before)⟩
  | none =>
    have awake := cancelledAt_eq_false.mpr early
    cases hc : (applyResult state.board (state.polls + 1) reply.result).conclusion with
    | some conclusion => exact ⟨_, .concluded conclusion awake hc⟩
    | none =>
      have passes : reply.passes := (conclusion_applyResult _ _ reply).mp hc
      by_cases inTime : clock + (state.time + reply.delay) + cadence.interval < clockEnd
      · cases cancels : reply.cancels with
        | true => exact ⟨_, .returned awake passes inTime cancels⟩
        | false =>
          cases within : state.cancel.filter (· ≤ state.time + reply.delay + cadence.interval) with
          | some moment =>
            obtain ⟨token, before⟩ := Option.filter_eq_some_iff.mp within
            have later : state.time + reply.delay < moment := by
              simpa [cancelledAt, token] using awake
            exact ⟨_, .interrupted passes inTime cancels moment token later (by simpa using before)⟩
          | none => exact ⟨_, .continued passes inTime cancels (cancelledAt_eq_false.mpr within)⟩
      · exact ⟨_, .clockEnded awake passes (Nat.le_of_not_lt inTime)⟩

theorem turned_turn (cadence : Cadence) (clock : Nat) (state : State) (reply : Reply) :
    Turned cadence clock state reply (turn cadence clock state reply) := by
  obtain ⟨outcome, turned⟩ := exists_turned cadence clock state reply
  rw [turned.turn_eq]
  exact turned

/-! ## The next turn of a run -/

theorem go_cons (cadence : Cadence) (clock : Nat) {state : State} (reply : Reply)
    (rest : List Reply) (awake : cancelledAt state.cancel state.time = false) :
    go cadence clock state (reply :: rest) =
      match turn cadence clock state reply with
      | .stop run => run
      | .next trace state => after trace (go cadence clock state rest) := by
  rw [go, awake]
  rfl

section Turned

variable {cadence : Cadence} {clock : Nat} {state : State} {reply : Reply}

theorem Turned.go_stop {run : Run} (turned : Turned cadence clock state reply (.stop run))
    (awake : cancelledAt state.cancel state.time = false) (rest : List Reply) :
    go cadence clock state (reply :: rest) = run := by
  rw [go_cons cadence clock reply rest awake, turned.turn_eq]

theorem Turned.go_next {trace : List Moment} {later : State}
    (turned : Turned cadence clock state reply (.next trace later))
    (awake : cancelledAt state.cancel state.time = false) (rest : List Reply) :
    go cadence clock state (reply :: rest) = after trace (go cadence clock later rest) := by
  rw [go_cons cadence clock reply rest awake, turned.turn_eq]

end Turned

/-- The next turn of a run that is not cancelled ends it, or gets it past the reply to a further
fetch. -/
theorem go_turn (cadence : Cadence) (clock : Nat) {state : State} (reply : Reply)
    (rest : List Reply) (awake : cancelledAt state.cancel state.time = false) :
    (∃ run, Turned cadence clock state reply (.stop run) ∧
        go cadence clock state (reply :: rest) = run) ∨
      (reply.passes ∧ reply.cancels = false ∧
        cancelledAt (state.next cadence reply).cancel (state.next cadence reply).time = false ∧
        go cadence clock state (reply :: rest) =
          after (shownBy state reply ++
              ticks cadence (reply.boardAfter state.board) cadence.interval)
            (go cadence clock (state.next cadence reply) rest)) := by
  have turned := turned_turn cadence clock state reply
  cases outcome : turn cadence clock state reply with
  | stop run =>
    rw [outcome] at turned
    exact .inl ⟨run, turned, turned.go_stop awake rest⟩
  | next trace later =>
    rw [outcome] at turned
    have whole := turned.go_next awake rest
    cases turned with
    | continued passes inTime quiet still => exact .inr ⟨passes, quiet, still, whole⟩

/-! ## Whole runs -/

/-- How the replies that a run applied unfold into its trace, from a board and a number of fetches
on. The last component is the conclusion of the reply that decided, if there is one. -/
inductive Traced : Board → UInt32 → List Reply → List Moment → Option Conclusion → Prop where
  | stopped {board : Board} {polls : UInt32} : Traced board polls [] [] none
  | pending {board : Board} {polls : UInt32} : Traced board polls [] [.fetch] none
  | decided {board : Board} {polls : UInt32} {reply : Reply} {conclusion : Conclusion}
      (decided : (applyResult board (polls + 1) reply.result).conclusion = some conclusion) :
      Traced board polls [reply]
        (.fetch :: (applyResult board (polls + 1) reply.result).calls.map .call) (some conclusion)
  | passed {board : Board} {polls : UInt32} {reply : Reply} {rest : List Reply} {ticks : Nat}
      {trace : List Moment} {conclusion : Option Conclusion} (passes : reply.passes)
      (still : reply.boardAfter board = [] → ticks = 0)
      (later : Traced (reply.boardAfter board) (polls + 1) rest trace conclusion) :
      Traced board polls (reply :: rest)
        (.fetch :: (reply.calls board).map .call ++ List.replicate ticks (.call .tick) ++ trace)
        conclusion

/-- The ticks of a pause: none on a board without spinners. -/
theorem exists_ticks (cadence : Cadence) (board : Board) (length : Nat) :
    ∃ n, (board = [] → n = 0) ∧ ticks cadence board length = List.replicate n (.call .tick) := by
  unfold ticks
  cases board with
  | nil => exact ⟨0, fun _ => rfl, rfl⟩
  | cons first rest => exact ⟨cadence.ticksWithin length, nofun, rfl⟩

theorem Traced.afterPause {state : State} {reply : Reply} {rest : List Reply}
    {trace : List Moment} {conclusion : Option Conclusion} {n : Nat}
    (later : Traced (reply.boardAfter state.board) (state.polls + 1) rest trace conclusion)
    (passes : reply.passes) (still : reply.boardAfter state.board = [] → n = 0) :
    Traced state.board state.polls (reply :: rest)
      (shownBy state reply ++ List.replicate n (.call .tick) ++ trace) conclusion := by
  unfold shownBy
  rw [applyResult_of_passes passes]
  exact .passed passes still later

/-- Every run is traced by the replies that it applied, which are the first ones. -/
theorem go_traced (cadence : Cadence) (clock : Nat) (state : State) (replies : List Reply) :
    ∃ applied conclusion, applied <+: replies ∧
      Traced state.board state.polls applied (go cadence clock state replies).trace conclusion ∧
      (go cadence clock state replies).ending.Fits conclusion := by
  -- the state is what the turns before left, so the board and the number of fetches vary
  induction replies generalizing state with
  | nil =>
    refine ⟨[], none, List.prefix_rfl, ?_, .inl rfl⟩
    unfold go
    split
    · exact .stopped
    · exact .pending
  | cons reply rest ih =>
    cases awake : cancelledAt state.cancel state.time with
    | true =>
      rw [go, if_pos awake]
      exact ⟨[], none, List.nil_prefix, .stopped, .inl rfl⟩
    | false =>
      have first : [reply] <+: reply :: rest := List.prefix_append [reply] rest
      obtain ⟨run, turned, whole⟩ | ⟨passes, -, -, whole⟩ := go_turn cadence clock reply rest awake
      · rw [whole]
        cases turned with
        | abandoned moment token early => exact ⟨[], none, List.nil_prefix, .pending, .inl rfl⟩
        | concluded conclusion awake decided =>
          exact ⟨[reply], some conclusion, first, .decided decided, rfl⟩
        | clockEnded awake passes late =>
          refine ⟨[reply], none, first, ?_, .inr rfl⟩
          simpa using Traced.stopped.afterPause passes (n := 0) fun _ => rfl
        | returned awake passes inTime cancels =>
          refine ⟨[reply], none, first, ?_, .inl rfl⟩
          simpa using Traced.stopped.afterPause passes (n := 0) fun _ => rfl
        | interrupted passes inTime quiet moment token later within =>
          obtain ⟨n, still, ht⟩ := exists_ticks cadence (reply.boardAfter state.board)
            (moment - (state.time + reply.delay))
          refine ⟨[reply], none, first, ?_, .inl rfl⟩
          rw [ht]
          simpa using Traced.stopped.afterPause passes still
      · obtain ⟨n, still, ht⟩ :=
          exists_ticks cadence (reply.boardAfter state.board) cadence.interval
        obtain ⟨applied, conclusion, hp, later, fits⟩ := ih (state.next cadence reply)
        rw [whole, ht]
        exact ⟨reply :: applied, conclusion, List.cons_prefix_cons.mpr ⟨rfl, hp⟩,
          later.afterPause passes still, fits⟩

end Run

end FleetControl
