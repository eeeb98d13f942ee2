import FleetControl.Proofs.Poll.Turn
import Mathlib.Algebra.Order.Floor.Div

/-!
# The timeline of a run

The same run by the clock: every entry of the trace comes with its moment, and the ticks of a pause
are not counted but come from a timer.

1. `select` waits for several branches: it wakes when the first of them is ready, and takes the
   first ready one in the order in which they are written.
2. `Ticker` is a timer that is due at once, and again after every period. `sleep` is the loop of a
   pause over the cancellation, the end of the pause and the timer; `sleep_eq` says how it goes.
3. `Timeline.ofReplies` is the run, and `untimed_ofReplies` says that without its moments it is
   `Run.ofReplies`: same end, same length, same trace, whenever the run is cancelled.
-/

namespace FleetControl

/-! ## Waiting -/

/-- A branch that is waited for: when it is ready, if ever, and what it brings. -/
structure Branch (α : Type) where
  ready : Option Nat
  value : α

/-- When the first of several branches is ready, waiting from `now` on: what was ready before is
ready at once. -/
def firstReady {α : Type} (now : Nat) (branches : List (Branch α)) (last : Nat) : Nat :=
  max now ((branches.filterMap (·.ready)).foldr min last)

/-- Waits from `now` on until one of several branches is ready, and takes the first one that is;
`last` is one more branch whose moment comes for sure. -/
def select {α : Type} (now : Nat) (branches : List (Branch α)) (last : Nat × α) : Nat × α :=
  let moment := firstReady now branches last.1
  let taken := branches.find? fun branch => branch.ready.any (· ≤ moment)
  (moment, (taken.map (·.value)).getD last.2)

section Select

variable {α : Type} (now : Nat) (value : α) (rest : List (Branch α)) (last : Nat × α)

theorem select_nil : select now [] last = (max now last.1, last.2) := rfl

theorem select_cons_none : select now (⟨none, value⟩ :: rest) last = select now rest last := rfl

theorem firstReady_cons (moment last : Nat) :
    firstReady now (⟨some moment, value⟩ :: rest) last =
      min (max now moment) (firstReady now rest last) := by
  unfold firstReady
  simp only [List.filterMap_cons, List.foldr_cons]
  omega

theorem select_cons_some (moment : Nat) :
    select now (⟨some moment, value⟩ :: rest) last =
      if moment ≤ (select now rest last).1 then (max now moment, value)
      else select now rest last := by
  have waited : now ≤ firstReady now rest last.1 := Nat.le_max_left ..
  unfold select
  dsimp only
  rw [firstReady_cons]
  split
  · next early =>
    rw [Nat.min_eq_left (Nat.max_le.mpr ⟨waited, early⟩), List.find?_cons_of_pos (by simp)]
    rfl
  · next late =>
    rw [Nat.min_eq_right (by omega), List.find?_cons_of_neg (by simpa using late)]

end Select

/-! ## The timer -/

/-- A rhythm whose ticks are some time apart. -/
structure Rhythm extends Cadence where
  moves : 0 < tick

def Rhythm.ofTick (interval tick : Nat) : Rhythm where
  toCadence := Cadence.ofTick interval tick
  moves := by
    unfold Cadence.ofTick defaultTick
    dsimp only
    split <;> omega

/-- A timer: the time from one tick to the next, and the moment of the next one. -/
structure Ticker where
  period : Nat
  due : Nat
  moves : 0 < period

namespace Ticker

/-- A timer that starts now is due at once. -/
def start (rhythm : Rhythm) (now : Nat) : Ticker := ⟨rhythm.tick, now, rhythm.moves⟩

/-- The timer after its tick. What a tick does takes no time, so none comes late. -/
def fire (ticker : Ticker) : Ticker := { ticker with due := ticker.due + ticker.period }

/-- The moments before `stop` at which a timer is due. -/
def beats (ticker : Ticker) (stop : Nat) : List Nat :=
  (List.range ((stop - ticker.due) ⌈/⌉ ticker.period)).map (ticker.due + · * ticker.period)

variable {ticker : Ticker} {stop : Nat}

theorem beats_of_le (h : stop ≤ ticker.due) : ticker.beats stop = [] := by
  unfold beats
  rw [Nat.sub_eq_zero_of_le h, zero_ceilDiv]
  rfl

theorem beats_of_lt (h : ticker.due < stop) :
    ticker.beats stop = ticker.due :: ticker.fire.beats stop := by
  have moves := ticker.moves
  have count : (stop - ticker.due) ⌈/⌉ ticker.period =
      (stop - (ticker.due + ticker.period)) ⌈/⌉ ticker.period + 1 := by
    rw [Nat.ceilDiv_eq_add_pred_div, Nat.ceilDiv_eq_add_pred_div, ← Nat.add_div_right _ moves]
    -- short of a whole period both sides round up to one tick
    by_cases short : stop - ticker.due < ticker.period
    · rw [Nat.div_eq_of_lt_le (k := 1) (by omega) (by omega),
        Nat.div_eq_of_lt_le (k := 1) (by omega) (by omega)]
    · congr 1
      omega
  unfold beats fire
  rw [count, List.range_succ_eq_map, List.map_cons, List.map_map]
  simp only [Nat.zero_mul, Nat.add_zero, List.cons.injEq, true_and]
  refine List.map_congr_left fun i _ => ?_
  simp only [Function.comp_apply, Nat.succ_mul]
  omega

end Ticker

/-! ## The pause -/

/-- What a pause waits for, in the order in which it looks. -/
inductive Waking where
  | cancelled
  | deadline
  | tick

/-- How a pause went: when it ended, whether it was cut short, and what it left in the trace. -/
structure Pause where
  ended : Nat
  cancelled : Bool
  entries : List (Nat × Moment)

def Pause.after (entries : List (Nat × Moment)) (pause : Pause) : Pause :=
  { pause with entries := entries ++ pause.entries }

/-- What ticks at some moments leave in the trace: nothing on a board without spinners. -/
def movedAt (board : Board) (moments : List Nat) : List (Nat × Moment) :=
  if board.isEmpty then [] else moments.map fun moment => (moment, .call .tick)

theorem movedAt_nil (board : Board) : movedAt board [] = [] := ite_self _

theorem movedAt_cons (board : Board) (moment : Nat) (moments : List Nat) :
    movedAt board (moment :: moments) = movedAt board [moment] ++ movedAt board moments := by
  unfold movedAt
  split <;> rfl

/-- What a pause waits for next. At one and the same moment the order of the branches decides. -/
def wake (cancel : Option Nat) (deadline now : Nat) (ticker : Ticker) : Nat × Waking :=
  select now [⟨cancel, .cancelled⟩, ⟨some deadline, .deadline⟩] (ticker.due, .tick)

/-- The end of a pause comes before a tick at the same moment. -/
theorem select_timers (deadline now : Nat) (ticker : Ticker) :
    select now [⟨some deadline, .deadline⟩] (ticker.due, Waking.tick) =
      if deadline ≤ max now ticker.due then (max now deadline, .deadline)
      else (max now ticker.due, .tick) :=
  select_cons_some ..

theorem wake_cases (cancel : Option Nat) {deadline now : Nat} {ticker : Ticker}
    (ahead : now ≤ ticker.due) (before : now ≤ deadline) :
    (∃ moment, cancel = some moment ∧ moment ≤ deadline ∧ moment ≤ ticker.due ∧
        wake cancel deadline now ticker = (max moment now, .cancelled)) ∨
      (cancel.filter (· ≤ deadline) = none ∧ deadline ≤ ticker.due ∧
        wake cancel deadline now ticker = (deadline, .deadline)) ∨
      ((∀ moment, cancel = some moment → ticker.due < moment) ∧ ticker.due < deadline ∧
        wake cancel deadline now ticker = (ticker.due, .tick)) := by
  have timers := select_timers deadline now ticker
  rw [Nat.max_eq_right ahead, Nat.max_eq_right before] at timers
  unfold wake
  cases cancel with
  | none =>
    rw [select_cons_none, timers]
    split
    · next ended => exact .inr (.inl ⟨rfl, ended, rfl⟩)
    · next going => exact .inr (.inr ⟨nofun, Nat.lt_of_not_le going, rfl⟩)
  | some moment =>
    rw [select_cons_some, timers, Nat.max_comm]
    by_cases ended : deadline ≤ ticker.due
    · rw [if_pos ended]
      by_cases early : moment ≤ deadline
      · rw [if_pos early]
        exact .inl ⟨moment, rfl, early, early.trans ended, rfl⟩
      · rw [if_neg early]
        exact .inr (.inl ⟨by simpa using early, ended, rfl⟩)
    · rw [if_neg ended]
      by_cases early : moment ≤ ticker.due
      · rw [if_pos early]
        exact .inl ⟨moment, rfl, by omega, early, rfl⟩
      · rw [if_neg early]
        exact .inr (.inr ⟨by simpa using early, Nat.lt_of_not_le ended, rfl⟩)

theorem due_lt_of_wake {cancel : Option Nat} {deadline now moment : Nat} {ticker : Ticker}
    (woken : wake cancel deadline now ticker = (moment, .tick)) : ticker.due < deadline := by
  have timers : select now [⟨some deadline, .deadline⟩] (ticker.due, Waking.tick) =
      (moment, .tick) := by
    unfold wake at woken
    cases cancel with
    | none => exact woken
    | some earlier =>
      rw [select_cons_some] at woken
      split at woken
      · cases woken
      · exact woken
  rw [select_timers] at timers
  split at timers
  · cases timers
  · omega

/-- The loop of a pause, from `now` on: a cancellation or the end of the pause ends it, and a tick
moves the board, if there is a spinner on it. -/
def sleep (cancel : Option Nat) (deadline : Nat) (board : Board) (now : Nat) (ticker : Ticker) :
    Pause :=
  match _ : wake cancel deadline now ticker with
  | (moment, .cancelled) => ⟨moment, true, []⟩
  | (moment, .deadline) => ⟨moment, false, []⟩
  | (moment, .tick) =>
    (sleep cancel deadline board moment ticker.fire).after (movedAt board [moment])
termination_by deadline - ticker.due
decreasing_by
  have before := due_lt_of_wake ‹_›
  have moves := ticker.moves
  unfold Ticker.fire
  dsimp only
  omega

/-- A pause ends at the cancellation, if there is one until its end, and the board moves at every
beat of the timer before that. -/
theorem sleep_eq (cancel : Option Nat) {deadline : Nat} (board : Board) {now : Nat}
    {ticker : Ticker} (ahead : now ≤ ticker.due) (before : now ≤ deadline) :
    sleep cancel deadline board now ticker =
      match cancel.filter (· ≤ deadline) with
      | some moment => ⟨max moment now, true, movedAt board (ticker.beats moment)⟩
      | none => ⟨deadline, false, movedAt board (ticker.beats deadline)⟩ := by
  -- one waiting decides; after a tick the rest of the pause starts at it, with the timer fired
  fun_induction sleep cancel deadline board now ticker with
  | case1 now ticker moment woken =>
    obtain ⟨token, rfl, inTime, early, woke⟩ | ⟨-, -, woke⟩ | ⟨-, -, woke⟩ :=
      wake_cases cancel ahead before
    all_goals cases woken.symm.trans woke
    rw [Option.filter_some, if_pos (by simpa using inTime)]
    dsimp only
    rw [Ticker.beats_of_le early, movedAt_nil]
  | case2 now ticker moment woken =>
    obtain ⟨token, rfl, inTime, early, woke⟩ | ⟨quiet, ended, woke⟩ | ⟨-, -, woke⟩ :=
      wake_cases cancel ahead before
    all_goals cases woken.symm.trans woke
    rw [quiet]
    dsimp only
    rw [Ticker.beats_of_le ended, movedAt_nil]
  | case3 now ticker moment woken ih =>
    obtain ⟨token, rfl, inTime, early, woke⟩ | ⟨-, -, woke⟩ | ⟨still, going, woke⟩ :=
      wake_cases cancel ahead before
    all_goals cases woken.symm.trans woke
    rw [ih (Nat.le_add_right _ _) (Nat.le_of_lt going)]
    cases within : cancel.filter (· ≤ deadline) with
    | none =>
      dsimp only
      rw [Ticker.beats_of_lt going, movedAt_cons board _ (ticker.fire.beats deadline)]
      rfl
    | some token =>
      have later := still token (Option.filter_eq_some_iff.mp within).1
      dsimp only
      rw [Ticker.beats_of_lt later, movedAt_cons board _ (ticker.fire.beats token),
        Nat.max_eq_left (Nat.le_of_lt later), Nat.max_eq_left (ahead.trans (Nat.le_of_lt later))]
      rfl

theorem sleep_start (cancel : Option Nat) (rhythm : Rhythm) (board : Board)
    (arrival length : Nat) :
    sleep cancel (arrival + length) board arrival (.start rhythm arrival) =
      match cancel.filter (· ≤ arrival + length) with
      | some moment =>
        ⟨max moment arrival, true, movedAt board ((Ticker.start rhythm arrival).beats moment)⟩
      | none =>
        ⟨arrival + length, false,
          movedAt board ((Ticker.start rhythm arrival).beats (arrival + length))⟩ :=
  sleep_eq cancel board (Nat.le_refl arrival) (Nat.le_add_right ..)

/-! ## The run -/

/-- A run by the clock: how it ended, how long it took, and what it did when. -/
structure Timeline where
  ending : Ending
  elapsed : Nat
  entries : List (Nat × Moment)

namespace Timeline

open Run (State cancelled cancelledAt applyResult)

/-- Puts entries in front of those of a timeline. -/
def after (entries : List (Nat × Moment)) (timeline : Timeline) : Timeline :=
  { timeline with entries := entries ++ timeline.entries }

/-- The run without its moments. -/
def untimed (timeline : Timeline) : Run :=
  ⟨timeline.ending, timeline.elapsed, timeline.entries.map (·.2)⟩

/-- Calls that are all made at one moment. -/
def callsAt (moment : Nat) (calls : List Call) : List (Nat × Moment) :=
  calls.map fun call => (moment, .call call)

/-- What a fetch comes to, and when: nothing if it is cancelled first, else its result. -/
def await (state : State) (reply : Reply) : Nat × Option (Except WorkflowError Fetch) :=
  select state.time [⟨state.cancel, none⟩] (state.time + reply.delay, some reply.result)

/-- The run from a state on: the cancellation is looked at, the reply is waited for and applied,
and a pause follows. A fetch that the source has no reply to is cancelled by it at once. -/
def go (rhythm : Rhythm) (clock : Nat) (state : State) : List Reply → Timeline
  | [] =>
    ⟨cancelled, state.time,
      if cancelledAt state.cancel state.time then [] else [(state.time, .fetch)]⟩
  | reply :: rest =>
    if cancelledAt state.cancel state.time then ⟨cancelled, state.time, []⟩
    else
      match await state reply with
      | (moment, none) => ⟨cancelled, moment, [(state.time, .fetch)]⟩
      | (arrival, some result) =>
        let applied := applyResult state.board (state.polls + 1) result
        let shown := (state.time, .fetch) :: callsAt arrival applied.calls
        match applied.conclusion with
        | some conclusion => ⟨.concluded conclusion, arrival, shown⟩
        | none =>
          match deadline? (clock + arrival) rhythm.interval with
          | none => ⟨.clockEnded, arrival, shown⟩
          | some _ =>
            let cancel := if reply.cancels then some arrival else state.cancel
            let pause := sleep cancel (arrival + rhythm.interval) applied.board arrival
              (Ticker.start rhythm arrival)
            if pause.cancelled then ⟨cancelled, pause.ended, shown ++ pause.entries⟩
            else
              after (shown ++ pause.entries)
                (go rhythm clock ⟨pause.ended, state.polls + 1, applied.board, cancel⟩ rest)

/-- The run over the replies of a source by the clock. -/
def ofReplies (rhythm : Rhythm) (clock : Nat) (cancel : Option Nat) (replies : List Reply) :
    Timeline :=
  go rhythm clock ⟨0, 0, [], cancel⟩ replies

theorem untimed_after (entries : List (Nat × Moment)) (timeline : Timeline) :
    (after entries timeline).untimed = Run.after (entries.map (·.2)) timeline.untimed := by
  unfold untimed after Run.after
  rw [List.map_append]

theorem untimed_fetched (begun arrival : Nat) (calls : List Call) :
    ((begun, .fetch) :: callsAt arrival calls).map (·.2) = .fetch :: calls.map .call := by
  unfold callsAt
  rw [List.map_cons, List.map_map]
  rfl

theorem untimed_movedAt (rhythm : Rhythm) (board : Board) (arrival stop : Nat) :
    (movedAt board ((Ticker.start rhythm arrival).beats stop)).map (·.2) =
      Run.ticks rhythm.toCadence board (stop - arrival) := by
  unfold movedAt Run.ticks
  split
  · rfl
  · have count : ((Ticker.start rhythm arrival).beats stop).length =
        rhythm.ticksWithin (stop - arrival) := by
      unfold Ticker.beats
      rw [List.length_map, List.length_range]
      rfl
    rw [List.map_map, ← count]
    exact List.map_const' ..

theorem await_eq {state : State} (reply : Reply)
    (awake : cancelledAt state.cancel state.time = false) :
    await state reply =
      match state.cancel.filter (· ≤ state.time + reply.delay) with
      | some moment => (moment, none)
      | none => (state.time + reply.delay, some reply.result) := by
  have arrives : max state.time (state.time + reply.delay) = state.time + reply.delay :=
    Nat.max_eq_right (Nat.le_add_right ..)
  unfold await
  cases token : state.cancel with
  | none => rw [select_cons_none, select_nil, arrives]; rfl
  | some moment =>
    have later : state.time < moment := by simpa [token, cancelledAt] using awake
    rw [select_cons_some, select_nil, arrives, Nat.max_eq_right (Nat.le_of_lt later),
      Option.filter_some]
    by_cases early : moment ≤ state.time + reply.delay
    · rw [if_pos early, if_pos (by simpa using early)]
    · rw [if_neg early, if_neg (by simpa using early)]

theorem untimed_go (rhythm : Rhythm) (clock : Nat) (state : State) (replies : List Reply) :
    (go rhythm clock state replies).untimed =
      Run.go rhythm.toCadence clock state replies := by
  induction replies generalizing state with
  | nil =>
    unfold go Run.go untimed
    split <;> rfl
  | cons reply rest ih =>
    cases awake : cancelledAt state.cancel state.time with
    | true =>
      rw [go, Run.go, if_pos awake, if_pos awake]
      rfl
    | false =>
      rw [go, awake, Run.go_cons _ clock reply rest awake, if_neg Bool.false_ne_true,
        await_eq reply awake]
      unfold Run.turn
      dsimp only
      cases state.cancel.filter (· ≤ state.time + reply.delay) with
      | some moment => rfl
      | none =>
        dsimp only
        cases (applyResult state.board (state.polls + 1) reply.result).conclusion with
        | some conclusion =>
          dsimp only
          rw [untimed, untimed_fetched]
        | none =>
          dsimp only
          unfold Run.pause
          cases deadline? (clock + (state.time + reply.delay)) rhythm.interval with
          | none =>
            dsimp only
            rw [untimed, untimed_fetched]
          | some deadline =>
            dsimp only
            rw [sleep_start]
            generalize (if reply.cancels then some (state.time + reply.delay) else state.cancel)
              = token
            -- both cut the pause short at the same moment, or let it end and go on
            cases token.filter (· ≤ state.time + reply.delay + rhythm.interval) with
            | some moment =>
              dsimp only
              rw [if_pos rfl, untimed, List.map_append, untimed_fetched, untimed_movedAt]
            | none =>
              dsimp only
              rw [if_neg Bool.false_ne_true, untimed_after, ih, List.map_append, untimed_fetched,
                untimed_movedAt, Nat.add_sub_cancel_left]

/-- Without its moments a timeline is the run over the same replies, whenever it is cancelled. -/
theorem untimed_ofReplies (rhythm : Rhythm) (clock : Nat) (cancel : Option Nat)
    (replies : List Reply) :
    (ofReplies rhythm clock cancel replies).untimed =
      Run.ofReplies rhythm.toCadence clock cancel replies :=
  untimed_go rhythm clock _ replies

end Timeline

end FleetControl
