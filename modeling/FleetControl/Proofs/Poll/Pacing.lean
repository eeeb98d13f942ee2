import FleetControl.Proofs.Poll.Retrying
import FleetControl.Proofs.Poll.Timeline

/-!
# The pace of a run

When a run that nothing cancels does what.

1. A poll leaves its fetch and what is shown as the reply arrives (`fetched`), and if it decides
   nothing, the beats of the pause after it (`rested`); then the next one begins (`go_polled`).
2. `go_polls` puts the polls of a run one after the other, each from where the earlier replies left
   the run. `begun`, `arrived` and `tickTimes` say when that is: nothing drifts, since every pause
   is counted from the arrival before it.
3. `ofReplies_paced` adds the fetch that decides, after which nothing is waited for.
-/

namespace FleetControl

namespace Timeline

open Run (State Lasts boardPast cancelledAt applyResult cancelledAt_of_quiet)

/-- What the fetch of a poll leaves on the timeline, with the reply to it if there is one. -/
def fetched (state : State) : Option Reply → List (Nat × Moment)
  | none => [(state.time, .fetch)]
  | some reply =>
    (state.time, .fetch) :: callsAt (state.time + reply.delay)
      (applyResult state.board (state.polls + 1) reply.result).calls

/-- What the pause of a poll leaves on the timeline. -/
def rested (rhythm : Rhythm) (state : State) : Option Reply → List (Nat × Moment)
  | none => []
  | some reply =>
    movedAt (reply.boardAfter state.board)
      ((Ticker.start rhythm (state.time + reply.delay)).beats
        (state.time + reply.delay + rhythm.interval))

/-! ## One poll -/

section Poll

variable {rhythm : Rhythm} {clock : Nat} {state : State} {reply : Reply}

theorem await_quiet (quiet : state.cancel = none) :
    await state reply = (state.time + reply.delay, some reply.result) := by
  rw [await_eq reply (cancelledAt_of_quiet quiet _), quiet]
  rfl

/-- A poll that decides nothing is followed by the next one, the interval after its reply. -/
theorem go_polled (rest : List Reply) (quiet : state.cancel = none)
    (uncancelled : reply.cancels = false) (passes : reply.passes)
    (inTime : clock + (state.time + reply.delay) + rhythm.interval < clockEnd) :
    go rhythm clock state (reply :: rest) =
      after (fetched state (some reply) ++ rested rhythm state (some reply))
        (go rhythm clock (state.next rhythm.toCadence reply) rest) := by
  rw [go, if_neg (by simp [cancelledAt_of_quiet quiet]), await_quiet quiet]
  unfold fetched rested State.next
  dsimp only
  rw [Run.applyResult_of_passes passes, deadline?, if_pos inTime, uncancelled, quiet]
  dsimp only
  rw [if_neg Bool.false_ne_true, sleep_start]
  rfl

/-- The fetch behind all polls that pass is the last entry but for what its reply shows: the run
ends as it arrives, or waits for it in vain. -/
theorem go_last (rhythm : Rhythm) (clock : Nat) {rest : List Reply} (quiet : state.cancel = none)
    (stops : ∀ reply ∈ rest.head?, reply.passes = false) :
    (go rhythm clock state rest).entries = fetched state rest.head? ∧
      (go rhythm clock state rest).elapsed =
        state.time + ((rest.take 1).map (·.delay)).sum ∧
      (go rhythm clock state rest).untimed.fetches = 1 := by
  cases rest with
  | nil =>
    rw [go, if_neg (by simp [cancelledAt_of_quiet quiet])]
    exact ⟨rfl, rfl, rfl⟩
  | cons last rest =>
    have stopped := stops last rfl
    rw [go, if_neg (by simp [cancelledAt_of_quiet quiet]), await_quiet quiet]
    dsimp only
    cases decided : (applyResult state.board (state.polls + 1) last.result).conclusion with
    | none =>
      rw [(Run.conclusion_applyResult _ _ last).mp decided] at stopped
      cases stopped
    | some conclusion =>
      refine ⟨rfl, by simp, ?_⟩
      rw [untimed, untimed_fetched]
      unfold Run.fetches
      simp [List.filter_map, Function.comp_def]

end Poll

/-! ## The polls of a run -/

theorem after_append (xs ys : List (Nat × Moment)) (timeline : Timeline) :
    after (xs ++ ys) timeline = after xs (after ys timeline) := by
  unfold after
  rw [List.append_assoc]

/-- A run gets past replies that pass poll by poll, each from where the earlier ones left it. -/
theorem go_polls (rhythm : Rhythm) (clock : Nat) (state : State) (earlier rest : List Reply)
    (quiet : state.cancel = none) (uncancelled : ∀ reply ∈ earlier, reply.cancels = false)
    (passes : ∀ reply ∈ earlier, reply.passes)
    (lasts : Lasts rhythm.toCadence (clock + state.time) earlier) :
    let standing k := state.past rhythm.toCadence ((earlier ++ rest).take k)
    go rhythm clock state (earlier ++ rest) =
      after ((List.range earlier.length).flatMap fun k =>
          fetched (standing k) (earlier ++ rest)[k]? ++
            rested rhythm (standing k) (earlier ++ rest)[k]?)
        (go rhythm clock (standing earlier.length) rest) := by
  induction earlier generalizing state with
  | nil => rfl
  | cons reply earlier ih =>
    rw [List.forall_mem_cons] at uncancelled passes
    obtain ⟨inTime, lasts⟩ := Run.lasts_cons.mp lasts
    have later := ih (state.next rhythm.toCadence reply) quiet uncancelled.2 passes.2
      (by simpa only [State.next, Nat.add_assoc] using lasts)
    intro standing
    -- the first poll, and the others with their numbers one less
    rw [List.cons_append, go_polled _ quiet uncancelled.1 passes.1 (by omega), later,
      ← after_append, List.length_cons, List.range_succ_eq_map, List.flatMap_cons, List.flatMap_map]
    rfl

/-! ## When it happens -/

/-- When the fetch after `k` replies begins: they took their time, and an interval followed each. -/
def begun (interval : Nat) (replies : List Reply) (k : Nat) : Nat :=
  ((replies.take k).map (·.delay)).sum + k * interval

def arrived (interval : Nat) (replies : List Reply) (k : Nat) : Nat :=
  ((replies.take (k + 1)).map (·.delay)).sum + k * interval

def boardAt (replies : List Reply) (k : Nat) : Board :=
  boardPast [] (replies.take k)

/-- The calls that show the reply to the fetch after `k` replies, if there is one. -/
def callsOn (replies : List Reply) (k : Nat) : List Call :=
  match replies[k]? with
  | none => []
  | some reply => (applyResult (boardAt replies k) (UInt32.ofNat k + 1) reply.result).calls

/-- The ticks of the pause after that reply: none without a spinner on the board, else the multiples
of the period that are less than the interval. -/
def tickTimes (interval period : Nat) (replies : List Reply) (k : Nat) : List Nat :=
  if (boardAt replies (k + 1)).isEmpty then []
  else (List.range (interval ⌈/⌉ period)).map (arrived interval replies k + · * period)

theorem begun_succ (interval : Nat) (replies : List Reply) (k : Nat) :
    begun interval replies (k + 1) = arrived interval replies k + interval := by
  unfold begun arrived
  rw [Nat.succ_mul, Nat.add_assoc]

theorem arrived_eq (interval : Nat) {replies : List Reply} {k : Nat} {reply : Reply}
    (here : replies[k]? = some reply) :
    arrived interval replies k = begun interval replies k + reply.delay := by
  unfold begun arrived
  rw [List.take_add_one, here, List.map_append, List.sum_append]
  simp only [Option.toList_some, List.map_cons, List.map_nil, List.sum_cons, List.sum_nil]
  omega

theorem boardAt_succ {replies : List Reply} {k : Nat} {reply : Reply}
    (here : replies[k]? = some reply) :
    boardAt replies (k + 1) = reply.boardAfter (boardAt replies k) := by
  unfold boardAt
  rw [List.take_add_one, here, Run.boardPast_append]
  rfl

theorem spent_eq (cadence : Cadence) (replies : List Reply) :
    Run.spent cadence replies =
      (replies.map (·.delay)).sum + replies.length * cadence.interval := by
  induction replies with
  | nil => simp [Run.spent]
  | cons reply rest ih =>
    rw [Run.spent_cons, ih, List.map_cons, List.sum_cons, List.length_cons, Nat.succ_mul]
    omega

theorem past_take (cadence : Cadence) {replies : List Reply} {k : Nat}
    (within : k ≤ replies.length) :
    State.past cadence ⟨0, 0, [], none⟩ (replies.take k) =
      ⟨begun cadence.interval replies k, UInt32.ofNat k, boardAt replies k, none⟩ := by
  have length : (replies.take k).length = k := List.length_take_of_le within
  generalize past : State.past cadence ⟨0, 0, [], none⟩ (replies.take k) = state
  calc state = ⟨state.time, state.polls, state.board, state.cancel⟩ := rfl
    _ = _ := by
      rw [← past, State.time_past, State.polls_past, State.board_past_eq, State.token_past,
        spent_eq, length, Nat.zero_add, UInt32.zero_add]
      rfl

theorem fetched_past (cadence : Cadence) {replies : List Reply} {k : Nat}
    (within : k ≤ replies.length) :
    fetched (.past cadence ⟨0, 0, [], none⟩ (replies.take k)) replies[k]? =
      (begun cadence.interval replies k, .fetch) ::
        callsAt (arrived cadence.interval replies k) (callsOn replies k) := by
  rw [past_take cadence within]
  unfold callsOn
  cases here : replies[k]? with
  | none => rfl
  | some reply =>
    rw [arrived_eq _ here]
    rfl

theorem rested_past (rhythm : Rhythm) {replies : List Reply} {k : Nat}
    (within : k < replies.length) :
    rested rhythm (.past rhythm.toCadence ⟨0, 0, [], none⟩ (replies.take k)) replies[k]? =
      (tickTimes rhythm.interval rhythm.tick replies k).map fun moment =>
        (moment, .call .tick) := by
  have here : replies[k]? = some replies[k] := List.getElem?_eq_getElem within
  rw [past_take rhythm.toCadence (Nat.le_of_lt within), here]
  unfold rested movedAt tickTimes Ticker.beats Ticker.start
  dsimp only
  rw [← arrived_eq rhythm.interval here, ← boardAt_succ here, Nat.add_sub_cancel_left]
  split <;> rfl

def tickMoments (entries : List (Nat × Moment)) : List Nat :=
  (entries.filter (·.2 == .call .tick)).map (·.1)

theorem tickMoments_append (xs ys : List (Nat × Moment)) :
    tickMoments (xs ++ ys) = tickMoments xs ++ tickMoments ys := by
  unfold tickMoments
  rw [List.filter_append, List.map_append]

theorem tickMoments_flatMap {α : Type} (xs : List α) (entries : α → List (Nat × Moment)) :
    tickMoments (xs.flatMap entries) = xs.flatMap fun x => tickMoments (entries x) := by
  unfold tickMoments
  rw [List.filter_flatMap, List.map_flatMap]

theorem tickMoments_fetched (interval : Nat) (replies : List Reply) (k : Nat) :
    tickMoments ((begun interval replies k, .fetch) ::
      callsAt (arrived interval replies k) (callsOn replies k)) = [] := by
  have silent : .tick ∉ callsOn replies k := by
    unfold callsOn
    split
    · exact List.not_mem_nil
    · next reply here => exact Run.tick_not_mem_applyResult _ _ reply
  unfold tickMoments callsAt
  rw [List.map_eq_nil_iff, List.filter_eq_nil_iff, List.forall_mem_cons]
  refine ⟨nofun, List.forall_mem_map.mpr fun call hc => ?_⟩
  have other : call ≠ .tick := fun he => silent (he ▸ hc)
  simpa using other

theorem tickMoments_ticks (moments : List Nat) :
    tickMoments (moments.map fun moment => (moment, .call .tick)) = moments := by
  unfold tickMoments
  rw [List.filter_eq_self.mpr (List.forall_mem_map.mpr fun _ _ => rfl), List.map_map]
  exact List.map_id _

/-- A multiple of the period is less than the interval if it is one of the ticks of a pause. -/
theorem lt_ceilDiv_iff {period : Nat} (moves : 0 < period) (interval i : Nat) :
    i < interval ⌈/⌉ period ↔ i * period < interval := by
  rw [← Nat.not_le, ceilDiv_le_iff_le_mul moves, Nat.not_le, Nat.mul_comm]

theorem ofReplies_append (rhythm : Rhythm) (clock : Nat) {earlier rest : List Reply}
    (uncancelled : ∀ reply ∈ earlier, reply.cancels = false)
    (passes : ∀ reply ∈ earlier, reply.passes)
    (stops : ∀ reply ∈ rest.head?, reply.passes = false)
    (lasts : Lasts rhythm.toCadence clock earlier) :
    let timeline := ofReplies rhythm clock none (earlier ++ rest)
    let poll k := (begun rhythm.interval (earlier ++ rest) k, .fetch) ::
      callsAt (arrived rhythm.interval (earlier ++ rest) k) (callsOn (earlier ++ rest) k)
    timeline.entries =
        ((List.range earlier.length).flatMap fun k => poll k ++
          (tickTimes rhythm.interval rhythm.tick (earlier ++ rest) k).map fun moment =>
            (moment, .call .tick)) ++
        poll earlier.length ∧
      timeline.elapsed = arrived rhythm.interval (earlier ++ rest) earlier.length ∧
      timeline.untimed.fetches = earlier.length + 1 := by
  intro timeline poll
  have within : earlier.length ≤ (earlier ++ rest).length := by simp
  have whole := go_polls rhythm clock ⟨0, 0, [], none⟩ earlier rest rfl uncancelled passes lasts
  have counted := (Run.go_passing rhythm.toCadence clock ⟨0, 0, [], none⟩ earlier rest rfl
    uncancelled passes lasts).2
  have quiet := State.cancel_past rhythm.toCadence ⟨0, 0, [], none⟩
    ((earlier ++ rest).take earlier.length) rfl
  obtain ⟨entries, elapsed, fetches⟩ := go_last rhythm clock quiet stops
  have next : rest.head? = (earlier ++ rest)[earlier.length]? := by
    rw [List.getElem?_append_right (Nat.le_refl _), Nat.sub_self, List.head?_eq_getElem?]
  rw [next, fetched_past rhythm.toCadence within] at entries
  refine ⟨?_, ?_, ?_⟩
  · rw [show timeline = _ from whole]
    refine congrArg₂ (· ++ ·) (List.flatMap_congr fun k hk => ?_) entries
    have inside : k < (earlier ++ rest).length := Nat.lt_of_lt_of_le (List.mem_range.mp hk) within
    rw [fetched_past rhythm.toCadence (Nat.le_of_lt inside), rested_past rhythm inside]
  · rw [show timeline = _ from whole]
    refine elapsed.trans ?_
    rw [past_take rhythm.toCadence within]
    unfold begun arrived
    dsimp only
    rw [List.take_length_add_append, List.take_left, List.map_append, List.sum_append]
    omega
  · rw [untimed_go, List.take_left] at fetches
    rw [untimed_ofReplies]
    exact counted.trans (congrArg (earlier.length + ·) fetches)

/-- The pace of a run that nothing cancels, for every interval, tick and script, as long as the
clock lasts. A pause follows every reply but the one that decides: the next fetch begins just the
interval after the reply arrived and was shown, whatever the fetch took and whether it failed. In
between the run ticks at the multiples of the period that are less than the interval, if there is a
spinner on the board, and it ticks at no other moment. So the run takes what its fetches take, and
an interval for each of them but the last. -/
theorem ofReplies_paced (interval tick clock : Nat) (replies : List Reply)
    (uncancelled : ∀ reply ∈ replies, reply.cancels = false)
    (lasts : Lasts (.ofTick interval tick) clock (replies.takeWhile Reply.passes)) :
    let run := Run.ofReplies (.ofTick interval tick) clock none replies
    let timeline := ofReplies (.ofTick interval tick) clock none replies
    let period := if tick = 0 then 100 else tick
    let pauses := (replies.takeWhile Reply.passes).length
    let poll k := (begun interval replies k, .fetch) ::
      callsAt (arrived interval replies k) (callsOn replies k)
    timeline.untimed = run ∧
      timeline.entries =
        ((List.range pauses).flatMap fun k => poll k ++
          (tickTimes interval period replies k).map fun moment => (moment, .call .tick)) ++
        poll pauses ∧
      (∀ k, begun interval replies (k + 1) = arrived interval replies k + interval) ∧
      tickMoments timeline.entries =
        ((List.range pauses).flatMap fun k => tickTimes interval period replies k) ∧
      (∀ i, i < interval ⌈/⌉ period ↔ i * period < interval) ∧
      run.fetches = pauses + 1 ∧
      run.elapsed =
        ((replies.take run.fetches).map (·.delay)).sum + (run.fetches - 1) * interval := by
  intro run timeline period pauses poll
  have parts : replies.takeWhile Reply.passes ++ replies.dropWhile Reply.passes = replies :=
    List.takeWhile_append_dropWhile
  have passes : ∀ reply ∈ replies.takeWhile Reply.passes, reply.passes :=
    fun _ => Run.passes_of_mem_takeWhile
  have quiet : ∀ reply ∈ replies.takeWhile Reply.passes, reply.cancels = false := fun reply hr =>
    uncancelled reply ((List.takeWhile_prefix _).subset hr)
  have moves : 0 < period := (Rhythm.ofTick interval tick).moves
  have same : timeline.untimed = run := untimed_ofReplies ..
  have whole := ofReplies_append (.ofTick interval tick) clock quiet passes
    (Run.stops_dropWhile replies) lasts
  rw [parts] at whole
  obtain ⟨entries, elapsed, fetches⟩ := whole
  rw [show (ofReplies _ _ _ _).untimed = run from same] at fetches
  refine ⟨same, entries, begun_succ interval replies, ?_, fun i => lt_ceilDiv_iff moves interval i,
    fetches, ?_⟩
  · rw [show timeline.entries = _ from entries, tickMoments_append, tickMoments_flatMap,
      tickMoments_fetched, List.append_nil]
    refine List.flatMap_congr fun k _ => ?_
    rw [tickMoments_append, tickMoments_fetched, tickMoments_ticks, List.nil_append]
    rfl
  · rw [fetches, Nat.add_sub_cancel]
    exact (congrArg Run.elapsed same).symm.trans elapsed

/-- A failed fetch, a first spinner, and a success: only the pause with the spinner ticks, and its
third tick is the last one before its end. -/
theorem ofReplies_paced_failing :
    let db : Resource := ⟨"i-1", "db", Steps.empty, some "running"⟩
    let replies : List Reply := [⟨70, .error (.fetch "busy"), false⟩,
      ⟨30, .ok ⟨[db], some (.ofStatus "running")⟩, false⟩,
      ⟨5, .ok ⟨[db], some (.ofStatus "success")⟩, false⟩]
    (∀ reply ∈ replies, reply.cancels = false) ∧
      Lasts (.ofTick 300 0) 0 (replies.takeWhile Reply.passes) ∧
      tickMoments (ofReplies (.ofTick 300 0) 0 none replies).entries = [400, 500, 600] ∧
      (Run.ofReplies (.ofTick 300 0) 0 none replies).elapsed = 705 := by
  intro db replies
  have uncancelled : ∀ reply ∈ replies, reply.cancels = false := by decide
  have lasts : Lasts (.ofTick 300 0) 0 (replies.takeWhile Reply.passes) := by decide
  obtain ⟨-, -, -, ticks, -, fetches, elapsed⟩ := ofReplies_paced 300 0 0 replies uncancelled lasts
  refine ⟨uncancelled, lasts, ticks.trans (by decide), ?_⟩
  rw [elapsed, fetches]
  decide

end Timeline

end FleetControl
