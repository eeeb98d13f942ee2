import FleetControl.Poll.Apply
import FleetControl.Poll.Cadence

/-!
# A poll run

A run fetches, applies and pauses until a fetch decides, the run is cancelled or the clock ends.
It is a function of the replies of the source, so its whole trace is a value.

1. `Run.ofReplies` is the run; `Run.trace` lists fetches and display calls in order.
2. A failed fetch is noted and tried again; a source with no more replies leaves the last fetch
   pending until the run is cancelled.
3. A cancellation wins over the end of a pause, and the end of a pause over a tick.
4. The fetches of a run are counted in 32 bits: after `2 ^ 32` of them the count is at zero again.
-/

namespace FleetControl

/-- A reply of the source: how long it takes, what it brings, and whether the run is cancelled at
the moment it arrives. -/
structure Reply where
  delay : Nat
  result : Except WorkflowError Fetch
  cancels : Bool

/-- The reply that arrives at once. -/
def Reply.prompt (result : Except WorkflowError Fetch) : Reply := ⟨0, result, false⟩

/-- How a run ended. -/
inductive Ending where
  | concluded (conclusion : Conclusion)
  /-- The next pause would have ended after the clock of the process. -/
  | clockEnded

/-- One entry of a trace. -/
inductive Moment where
  | fetch
  | call (call : Call)
  deriving DecidableEq, Repr, Inhabited

/-- A run: how it ended, how long it took and what it did. -/
structure Run where
  ending : Ending
  elapsed : Nat
  trace : List Moment

namespace Run

def retryNote (error : WorkflowError) : String :=
  "Fetch failed, retrying: " ++ error.message

/-- Whether a run with this moment of cancellation is cancelled at a time. -/
def cancelledAt (cancel : Option Nat) (time : Nat) : Bool :=
  cancel.any (· ≤ time)

/-- The end by cancellation. -/
def cancelled : Ending := .concluded (.error .cancelled)

/-- The ticks of a pause; a board without spinners does not move. -/
def ticks (cadence : Cadence) (board : Board) (length : Nat) : List Moment :=
  if board.isEmpty then [] else List.replicate (cadence.ticksWithin length) (.call .tick)

def after (moments : List Moment) (run : Run) : Run :=
  { run with trace := moments ++ run.trace }

/-- What a reply does to the board: the fetch applied, or the failure noted. -/
def applyResult (board : Board) (polls : UInt32) (result : Except WorkflowError Fetch) : Applied :=
  match result with
  | .ok fetch => Applied.ofFetch board polls fetch
  | .error error => ⟨board, [.note (retryNote error)], none⟩

/-- Where a run stands before its next fetch: the time since it began, the fetches so far, the
board, and the time of its cancellation. -/
structure State where
  time : Nat
  polls : UInt32
  board : Board
  cancel : Option Nat

/-- What one reply leads to: the end of the run, or the next fetch. -/
inductive Turn where
  | stop (run : Run)
  | next (trace : List Moment) (state : State)

/-- The pause after a fetch that did not decide; `arrival` is the moment it was applied. -/
def pause (cadence : Cadence) (clock arrival : Nat) (shown : List Moment) (state : State) : Turn :=
  match deadline? (clock + arrival) cadence.interval with
  | none => .stop ⟨.clockEnded, arrival, shown⟩
  | some _ =>
    let finish := arrival + cadence.interval
    match state.cancel.filter (· ≤ finish) with
    | some moment =>
      .stop ⟨cancelled, max moment arrival,
        shown ++ ticks cadence state.board (moment - arrival)⟩
    | none =>
      .next (shown ++ ticks cadence state.board cadence.interval) { state with time := finish }

/-- One fetch with its reply, and the pause after it. -/
def turn (cadence : Cadence) (clock : Nat) (state : State) (reply : Reply) : Turn :=
  let arrival := state.time + reply.delay
  match state.cancel.filter (· ≤ arrival) with
  | some moment => .stop ⟨cancelled, moment, [.fetch]⟩
  | none =>
    let polls := state.polls + 1
    let applied := applyResult state.board polls reply.result
    let shown := .fetch :: applied.calls.map .call
    match applied.conclusion with
    | some conclusion => .stop ⟨.concluded conclusion, arrival, shown⟩
    | none =>
      let cancel := if reply.cancels then some arrival else state.cancel
      pause cadence clock arrival shown ⟨arrival, polls, applied.board, cancel⟩

/-- The run from a state on: `clock` is the clock of the process when the run began. -/
def go (cadence : Cadence) (clock : Nat) (state : State) : List Reply → Run
  | [] =>
    ⟨cancelled, state.time, if cancelledAt state.cancel state.time then [] else [.fetch]⟩
  | reply :: rest =>
    if cancelledAt state.cancel state.time then ⟨cancelled, state.time, []⟩
    else
      match turn cadence clock state reply with
      | .stop run => run
      | .next trace state => after trace (go cadence clock state rest)

/-- The run over the replies of a source; `cancel` is the moment of its cancellation, zero before it
began. -/
def ofReplies (cadence : Cadence) (clock : Nat) (cancel : Option Nat) (replies : List Reply) :
    Run :=
  go cadence clock ⟨0, 0, [], cancel⟩ replies

def calls (run : Run) : List Call :=
  run.trace.filterMap fun
    | .call call => some call
    | .fetch => none

def fetches (run : Run) : Nat :=
  (run.trace.filter (· == .fetch)).length

end Run

end FleetControl
