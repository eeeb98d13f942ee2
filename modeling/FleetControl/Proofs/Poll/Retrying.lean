import FleetControl.Proofs.Poll.Display
import FleetControl.Proofs.Poll.Uncancelled

/-!
# Failed fetches

A failed fetch is noted and tried again, whatever its error says. So fetches that fail before the
one that decides change neither the end of a run, but for the number of fetches that it reports, nor
its other calls.

1. `weave` inserts blocks of failures between the replies of a script.
2. A failure leaves the board as it is, so the calls of the other fetches stay what they were
   (`rounds_weave`).
3. The count of fetches enters a conclusion only through the report (`ofFetch_later`).
4. `ofReplies_retries` compares the run with the failures to the run without them.
-/

namespace FleetControl

def Report.later (more : Nat) (report : Report) : Report :=
  { report with polls := report.polls + UInt32.ofNat more }

theorem Report.toNat_polls_later (more : Nat) (report : Report) :
    (report.later more).polls.toNat = (report.polls.toNat + more) % UInt32.size := by
  unfold later
  rw [UInt32.toNat_add, UInt32.toNat_ofNat', Nat.add_mod_mod]

/-- An ending of a run with more fetches: an error stays what it is. -/
def Ending.later (more : Nat) : Ending → Ending
  | .concluded conclusion => .concluded (conclusion.map (Report.later more))
  | .clockEnded => .clockEnded

namespace Run

/-- A fetch that fails: how long it takes and the error of the source. -/
structure Failure where
  delay : Nat
  error : WorkflowError

def Failure.reply (failure : Failure) : Reply := ⟨failure.delay, .error failure.error, false⟩

def Failure.calls (failure : Failure) : List Call :=
  [.note ("Fetch failed, retrying: " ++ failure.error.message)]

/-- Inserts blocks into a list, the first one before its first item, the second one before its
second item and so on. Blocks beyond the items go to the end. -/
def weave {α : Type} : List (List α) → List α → List α
  | [], items => items
  | block :: blocks, [] => block ++ weave blocks []
  | block :: blocks, item :: items => block ++ item :: weave blocks items

/-- The calls of replies that pass, fetch by fetch. -/
def rounds (board : Board) : List Reply → List (List Call)
  | [] => []
  | reply :: rest => reply.calls board :: rounds (reply.boardAfter board) rest

def fetched (calls : List Call) : List Moment := .fetch :: calls.map .call

/-- A trace without its ticks. -/
def timeless (trace : List Moment) : List Moment := trace.filter (· != .call .tick)

/-- The creates, updates and resolves among calls. -/
def keyed (calls : List Call) : List Call := calls.filter fun call => call.key?.isSome

/-! ## Weaving -/

theorem length_weave {α : Type} (blocks : List (List α)) (items : List α) :
    (weave blocks items).length = items.length + blocks.flatten.length := by
  induction blocks generalizing items with
  | nil => rfl
  | cons block blocks ih =>
    cases items with
    | nil =>
      rw [weave, List.length_append, ih, List.flatten_cons, List.length_append]
      omega
    | cons item items =>
      rw [weave, List.length_append, List.length_cons, ih, List.flatten_cons, List.length_append,
        List.length_cons]
      omega

theorem mem_weave {α : Type} {blocks : List (List α)} {items : List α} {a : α} :
    a ∈ weave blocks items ↔ a ∈ blocks.flatten ∨ a ∈ items := by
  induction blocks generalizing items with
  | nil => simp [weave]
  | cons block blocks ih =>
    cases items with
    | nil => simp [weave, ih]
    | cons item items =>
      simp only [weave, List.mem_append, List.mem_cons, ih, List.flatten_cons]
      tauto

theorem sublist_weave {α : Type} (blocks : List (List α)) (items : List α) :
    items.Sublist (weave blocks items) := by
  induction blocks generalizing items with
  | nil => exact List.Sublist.refl items
  | cons block blocks ih =>
    cases items with
    | nil => exact List.nil_sublist _
    | cons item items =>
      exact ((ih items).cons_cons item).trans (List.sublist_append_right block _)

/-! ## Failures -/

theorem forall_mem_weave {p : Reply → Prop} (gaps : List (List Failure)) {replies : List Reply}
    (failed : ∀ failure : Failure, p failure.reply) (own : ∀ reply ∈ replies, p reply) :
    ∀ reply ∈ weave (gaps.map (·.map Failure.reply)) replies, p reply := by
  intro reply hr
  rcases mem_weave.mp hr with inserted | listed
  · rw [← List.map_flatten] at inserted
    obtain ⟨failure, -, rfl⟩ := List.mem_map.mp inserted
    exact failed failure
  · exact own reply listed

/-- A failure leaves the board as it is, so it does not change the calls of later replies. -/
theorem rounds_failures (board : Board) (failures : List Failure) (replies : List Reply) :
    rounds board (failures.map Failure.reply ++ replies) =
      failures.map Failure.calls ++ rounds board replies := by
  induction failures with
  | nil => rfl
  | cons failure failures ih => exact congrArg (failure.calls :: ·) ih

/-- Failures between replies add their notes between the calls of these replies. -/
theorem rounds_weave (board : Board) (blocks : List (List Failure)) (replies : List Reply) :
    rounds board (weave (blocks.map (·.map Failure.reply)) replies) =
      weave (blocks.map (·.map Failure.calls)) (rounds board replies) := by
  induction blocks generalizing board replies with
  | nil => rfl
  | cons block blocks ih =>
    cases replies with
    | nil => exact (rounds_failures board block _).trans (congrArg _ (ih board []))
    | cons reply replies =>
      refine (rounds_failures board block _).trans ?_
      exact congrArg (block.map Failure.calls ++ reply.calls board :: ·) (ih _ replies)

theorem length_rounds (board : Board) (replies : List Reply) :
    (rounds board replies).length = replies.length := by
  induction replies generalizing board with
  | nil => rfl
  | cons reply rest ih => exact congrArg (· + 1) (ih _)

/-- The board after replies that pass. -/
def boardPast (board : Board) (replies : List Reply) : Board :=
  replies.foldl (fun board reply => reply.boardAfter board) board

theorem boardPast_append (board : Board) (xs ys : List Reply) :
    boardPast board (xs ++ ys) = boardPast (boardPast board xs) ys :=
  List.foldl_append

theorem State.board_past_eq (cadence : Cadence) (state : State) (replies : List Reply) :
    (state.past cadence replies).board = boardPast state.board replies := by
  induction replies generalizing state with
  | nil => rfl
  | cons reply rest ih => exact ih (state.next cadence reply)

theorem boardPast_failures (board : Board) (failures : List Failure) (replies : List Reply) :
    boardPast board (failures.map Failure.reply ++ replies) = boardPast board replies := by
  induction failures with
  | nil => rfl
  | cons failure failures ih => exact ih

theorem boardPast_weave (board : Board) (blocks : List (List Failure)) (replies : List Reply) :
    boardPast board (weave (blocks.map (·.map Failure.reply)) replies) =
      boardPast board replies := by
  induction blocks generalizing board replies with
  | nil => rfl
  | cons block blocks ih =>
    cases replies with
    | nil => exact (boardPast_failures board block _).trans (ih board [])
    | cons reply replies => exact (boardPast_failures board block _).trans (ih _ replies)

theorem spent_le_of_sublist (cadence : Cadence) {replies longer : List Reply}
    (part : replies.Sublist longer) : spent cadence replies ≤ spent cadence longer := by
  induction part with
  | slnil => exact Nat.le_refl 0
  | cons reply part ih =>
    rw [spent_cons]
    omega
  | cons_cons reply part ih =>
    rw [spent_cons, spent_cons]
    omega

theorem lasts_of_sublist {cadence : Cadence} {now : Nat} {replies longer : List Reply}
    (part : replies.Sublist longer) (lasts : Lasts cadence now longer) :
    Lasts cadence now replies := by
  rcases lasts with rfl | lasts
  · exact .inl (List.sublist_nil.mp part)
  · have shorter := spent_le_of_sublist cadence part
    exact .inr (by omega)

/-! ## The calls of a fetch -/

theorem tick_not_mem_applyResult (board : Board) (polls : UInt32) (reply : Reply) :
    .tick ∉ (applyResult board polls reply.result).calls := by
  cases hr : reply.result with
  | error error => exact fun h => nomatch List.mem_singleton.mp h
  | ok fetch =>
    obtain ⟨items, -, calls⟩ := ofFetch_resolves board polls fetch
    intro ticks
    rw [show (applyResult board polls (.ok fetch)).calls = _ from calls] at ticks
    rcases List.mem_append.mp ticks with shown | resolved
    · rcases shows_of_mem_observeAll shown with shows | ⟨r, -, -, resolve⟩
      · cases shows
      · cases resolve
    · obtain ⟨key, outcome, text, resolve⟩ := isResolve_of_mem_resolveAll resolved
      cases resolve

theorem timeless_append (xs ys : List Moment) :
    timeless (xs ++ ys) = timeless xs ++ timeless ys :=
  List.filter_append ..

theorem timeless_ticks (cadence : Cadence) (board : Board) (length : Nat) :
    timeless (ticks cadence board length) = [] := by
  obtain ⟨n, -, ht⟩ := exists_ticks cadence board length
  rw [ht, timeless, List.filter_eq_nil_iff]
  intro moment hm
  rw [List.eq_of_mem_replicate hm]
  decide

theorem timeless_fetched {calls : List Call} (h : .tick ∉ calls) :
    timeless (fetched calls) = fetched calls := by
  unfold timeless
  rw [List.filter_eq_self]
  intro moment hm
  rcases List.mem_cons.mp hm with rfl | hm
  · rfl
  · obtain ⟨call, hc, rfl⟩ := List.mem_map.mp hm
    have other : call ≠ .tick := fun he => h (he ▸ hc)
    simpa using other

theorem timeless_passed (cadence : Cadence) (board : Board) {replies : List Reply}
    (passes : ∀ reply ∈ replies, reply.passes) :
    timeless (passed cadence board replies) = (rounds board replies).flatMap fetched := by
  induction replies generalizing board with
  | nil => rfl
  | cons reply rest ih =>
    rw [List.forall_mem_cons] at passes
    have quiet : .tick ∉ reply.calls board := by
      have all := tick_not_mem_applyResult board 0 reply
      rwa [applyResult_of_passes passes.1] at all
    rw [passed, timeless_append, timeless_append, timeless_ticks, ih _ passes.2, rounds,
      List.flatMap_cons, List.append_nil]
    exact congrArg (· ++ _) (timeless_fetched quiet)

theorem keyed_append (xs ys : List Call) : keyed (xs ++ ys) = keyed xs ++ keyed ys :=
  List.filter_append ..

theorem keyed_callsOf (trace : List Moment) :
    keyed (callsOf trace) = keyed (callsOf (timeless trace)) := by
  induction trace with
  | nil => rfl
  | cons moment trace ih =>
    rcases moment with _ | call
    · exact ih
    · cases call with
      | tick => exact ih
      | note text => exact ih
      | create key text => exact congrArg (.create key text :: ·) ih
      | update key text => exact congrArg (.update key text :: ·) ih
      | resolve key outcome text => exact congrArg (.resolve key outcome text :: ·) ih

theorem callsOf_fetched (rounds : List (List Call)) :
    callsOf (rounds.flatMap fetched) = rounds.flatten := by
  induction rounds with
  | nil => rfl
  | cons calls rounds ih =>
    rw [List.flatMap_cons, callsOf_append, ih, fetched, callsOf_fetch, callsOf_map,
      List.flatten_cons]

theorem keyed_of_rounds {trace : List Moment} {rounds : List (List Call)}
    (known : timeless trace = rounds.flatMap fetched) :
    keyed (callsOf trace) = keyed rounds.flatten := by
  rw [keyed_callsOf, known, callsOf_fetched]

theorem keyed_failures (failures : List Failure) :
    keyed (failures.map Failure.calls).flatten = [] := by
  induction failures with
  | nil => rfl
  | cons failure failures ih => exact ih

theorem keyed_weave (blocks : List (List Failure)) (rounds : List (List Call)) :
    keyed (weave (blocks.map (·.map Failure.calls)) rounds).flatten = keyed rounds.flatten := by
  induction blocks generalizing rounds with
  | nil => rfl
  | cons block blocks ih =>
    rw [List.map_cons]
    cases rounds with
    | nil =>
      rw [weave, List.flatten_append, keyed_append, keyed_failures, ih, List.nil_append]
    | cons calls rounds =>
      rw [weave, List.flatten_append, keyed_append, keyed_failures, List.nil_append,
        List.flatten_cons, keyed_append, ih, List.flatten_cons, keyed_append]

end Run

namespace Applied

/-- The number of fetches enters what a fetch does only through the report. -/
theorem ofFetch_later (board : Board) (polls : UInt32) (more : Nat) (fetch : Fetch) :
    ofFetch board (polls + UInt32.ofNat more) fetch =
      { ofFetch board polls fetch with
        conclusion :=
          (ofFetch board polls fetch).conclusion.map (Except.map (Report.later more)) } := by
  unfold ofFetch
  cases fetch.workflow with
  | none => rfl
  | some record =>
    dsimp only
    cases Decision.evaluate record.signal (statuses fetch.resources) with
    | «continue» => rfl
    | resourceFailed key => rfl
    | terminal verdict forced =>
      cases verdict with
      | success => rfl
      | failure => rfl

end Applied

namespace Run

theorem applyResult_later (board : Board) (polls : UInt32) (more : Nat) (reply : Reply) :
    applyResult board (polls + UInt32.ofNat more) reply.result =
      { applyResult board polls reply.result with
        conclusion := (applyResult board polls reply.result).conclusion.map
          (Except.map (Report.later more)) } := by
  cases reply.result with
  | error error => rfl
  | ok fetch => exact Applied.ofFetch_later board polls more fetch

/-! ## Whole runs -/

/-- What a run does from a fetch on that is its last one, after any number of fetches: it makes the
same calls, and its end counts the fetches. -/
theorem go_last_later (cadence : Cadence) (clock : Nat) {state later : State} {more : Nat}
    (tail : List Reply) (quiet : state.cancel = none) (token : later.cancel = none)
    (board : later.board = state.board) (polls : later.polls = state.polls + UInt32.ofNat more)
    (stops : ∀ reply ∈ tail.head?, reply.passes = false) :
    ∃ calls, .tick ∉ calls ∧ (go cadence clock state tail).trace = fetched calls ∧
      (go cadence clock later tail).trace = fetched calls ∧
      (go cadence clock later tail).ending = (go cadence clock state tail).ending.later more := by
  cases tail with
  | nil =>
    refine ⟨[], List.not_mem_nil, ?_, ?_, rfl⟩
    · rw [go, quiet]
      rfl
    · rw [go, token]
      rfl
  | cons last rest =>
    have first : (applyResult state.board (state.polls + 1) last.result).conclusion ≠ none := by
      rw [Ne, conclusion_applyResult, stops last rfl]
      exact Bool.false_ne_true
    obtain ⟨conclusion, concluded⟩ := Option.ne_none_iff_exists'.mp first
    have counts : later.polls + 1 = state.polls + 1 + UInt32.ofNat more := by
      rw [polls, UInt32.add_assoc, UInt32.add_assoc, UInt32.add_comm 1]
    have calls : (applyResult later.board (later.polls + 1) last.result).calls =
        (applyResult state.board (state.polls + 1) last.result).calls := by
      rw [board, counts, applyResult_later]
    have counted : (applyResult later.board (later.polls + 1) last.result).conclusion =
        some (conclusion.map (Report.later more)) := by
      rw [board, counts, applyResult_later, concluded]
      rfl
    have awake := cancelledAt_of_quiet quiet
    have awakeLater := cancelledAt_of_quiet token
    rw [(Turned.concluded conclusion (awake _) concluded).go_stop (awake _) rest,
      (Turned.concluded _ (awakeLater _) counted).go_stop (awakeLater _) rest]
    exact ⟨_, tick_not_mem_applyResult state.board (state.polls + 1) last, rfl,
      congrArg fetched calls, rfl⟩

/-- Without its ticks the trace of a run that gets past replies to its last fetch is that of the
calls, fetch by fetch. -/
theorem timeless_go_past (cadence : Cadence) (clock : Nat) (state : State)
    (earlier rest : List Reply) (quiet : state.cancel = none)
    (uncancelled : ∀ reply ∈ earlier, reply.cancels = false)
    (passes : ∀ reply ∈ earlier, reply.passes)
    (lasts : Lasts cadence (clock + state.time) earlier) {calls : List Call} (still : .tick ∉ calls)
    (last : (go cadence clock (state.past cadence earlier) rest).trace = fetched calls) :
    timeless (go cadence clock state (earlier ++ rest)).trace =
      (rounds state.board earlier ++ [calls]).flatMap fetched := by
  have whole := go_past cadence clock state earlier rest quiet uncancelled passes lasts
  calc timeless (go cadence clock state (earlier ++ rest)).trace
      = timeless (passed cadence state.board earlier ++
          (go cadence clock (state.past cadence earlier) rest).trace) := by rw [whole]; rfl
    _ = (rounds state.board earlier).flatMap fetched ++ fetched calls := by
        rw [timeless_append, timeless_passed cadence _ passes, last, timeless_fetched still]
    _ = (rounds state.board earlier ++ [calls]).flatMap fetched := by
        rw [List.flatMap_append, List.flatMap_singleton]

/-- Failed fetches are transparent. Any number of them, inserted anywhere before the fetch that
decides and with any errors, leaves a run its end but for the number of fetches in its report: that
number grows by theirs, in its 32 bits. The creates, updates and resolves are the same. Fetch by
fetch, ticks apart, the run makes the calls that it makes without the failures, and the one note of
each failure in its place.

The failures take time: if they push a pause past the clock of the process, the run ends there. -/
theorem ofReplies_retries (cadence : Cadence) (clock : Nat) (replies : List Reply)
    (gaps : List (List Failure)) (uncancelled : ∀ reply ∈ replies, reply.cancels = false) :
    let earlier := replies.takeWhile Reply.passes
    let longer := weave (gaps.map (·.map Failure.reply)) earlier
    let short := ofReplies cadence clock none replies
    let long := ofReplies cadence clock none (longer ++ replies.dropWhile Reply.passes)
    if Lasts cadence clock longer then
      long.ending = short.ending.later gaps.flatten.length ∧
        (∀ report, short.ending = .concluded (.ok report) → ∃ polls,
          long.ending = .concluded (.ok { report with polls }) ∧
            polls.toNat = (report.polls.toNat + gaps.flatten.length) % UInt32.size) ∧
        keyed long.calls = keyed short.calls ∧
        ∃ (rounds : List (List Call)) (last : List Call), rounds.length = earlier.length ∧
          timeless short.trace = (rounds ++ [last]).flatMap fetched ∧
          timeless long.trace =
            (weave (gaps.map (·.map Failure.calls)) rounds ++ [last]).flatMap fetched
    else long.ending = .clockEnded := by
  intro earlier longer short long
  have passes : ∀ reply ∈ earlier, reply.passes := fun reply hr =>
    List.all_eq_true.mp List.all_takeWhile reply hr
  have quiet : ∀ reply ∈ earlier, reply.cancels = false :=
    fun reply hr => uncancelled reply ((List.takeWhile_prefix _).subset hr)
  have passesLonger : ∀ reply ∈ longer, reply.passes :=
    forall_mem_weave gaps (fun _ => rfl) passes
  have quietLonger : ∀ reply ∈ longer, reply.cancels = false :=
    forall_mem_weave gaps (fun _ => rfl) quiet
  by_cases lasts : Lasts cadence clock longer
  · rw [if_pos lasts]
    have shorter : Lasts cadence clock earlier := lasts_of_sublist (sublist_weave _ earlier) lasts
    have parts : short = go cadence clock ⟨0, 0, [], none⟩
        (earlier ++ replies.dropWhile Reply.passes) := by
      rw [List.takeWhile_append_dropWhile]
      rfl
    -- both runs come to the same fetch on the same board, one of them later
    have board : (State.past cadence ⟨0, 0, [], none⟩ longer).board =
        (State.past cadence ⟨0, 0, [], none⟩ earlier).board := by
      rw [State.board_past_eq, State.board_past_eq, boardPast_weave]
    have polls : (State.past cadence ⟨0, 0, [], none⟩ longer).polls =
        (State.past cadence ⟨0, 0, [], none⟩ earlier).polls + UInt32.ofNat gaps.flatten.length := by
      rw [State.polls_past, State.polls_past, length_weave, ← List.map_flatten, List.length_map,
        UInt32.ofNat_add, UInt32.add_assoc]
    have stops : ∀ reply ∈ (replies.dropWhile Reply.passes).head?, reply.passes = false := by
      intro last hl
      have first := List.head?_dropWhile_not Reply.passes replies
      rw [Option.mem_def.mp hl] at first
      simpa using first
    obtain ⟨calls, still, shortLast, longLast, ending⟩ := go_last_later cadence clock
      (replies.dropWhile Reply.passes) (State.token_past ..) (State.token_past ..) board polls stops
    have shortTrace := timeless_go_past cadence clock ⟨0, 0, [], none⟩ earlier _ rfl quiet passes
      shorter still shortLast
    have longTrace := timeless_go_past cadence clock ⟨0, 0, [], none⟩ longer _ rfl quietLonger
      passesLonger lasts still longLast
    rw [rounds_weave] at longTrace
    rw [← parts] at shortTrace
    have ends : long.ending = short.ending.later gaps.flatten.length := by
      have shortPast := go_past cadence clock ⟨0, 0, [], none⟩ earlier
        (replies.dropWhile Reply.passes) rfl quiet passes shorter
      have longPast := go_past cadence clock ⟨0, 0, [], none⟩ longer
        (replies.dropWhile Reply.passes) rfl quietLonger passesLonger lasts
      rw [parts, shortPast]
      exact (congrArg Run.ending longPast).trans ending
    refine ⟨ends, ?_, ?_, rounds [] earlier, calls, length_rounds [] earlier, shortTrace, longTrace⟩
    · intro report reports
      rw [reports] at ends
      exact ⟨_, ends, Report.toNat_polls_later _ report⟩
    · calc keyed long.calls
          = keyed (weave (gaps.map (·.map Failure.calls)) (rounds [] earlier) ++ [calls]).flatten :=
            keyed_of_rounds longTrace
        _ = keyed (rounds [] earlier ++ [calls]).flatten := by
            rw [List.flatten_append, List.flatten_append, keyed_append, keyed_append, keyed_weave]
        _ = keyed short.calls := (keyed_of_rounds shortTrace).symm
  · rw [if_neg lasts]
    exact go_late cadence clock _ longer _ rfl quietLonger passesLonger (by simpa using lasts)

/-- Errors of the source that look like a cancellation, a failed resource and a failed workflow. -/
theorem ofReplies_retries_misleading :
    let db : Resource := ⟨"i-1", "db", Steps.empty, some "running"⟩
    let running : Reply := .prompt (.ok ⟨[db], some (.ofStatus "running")⟩)
    let done : Reply := .prompt (.ok ⟨[db], some (.ofStatus "success")⟩)
    let interrupted : Failure := ⟨0, .cancelled⟩
    let broken : Failure := ⟨5, .resourceFailed "db"⟩
    let ended : Failure := ⟨0, .workflowFailed "FAILED"⟩
    let busy : Failure := ⟨0, .fetch "busy"⟩
    let long := ofReplies ⟨10, 100⟩ 0 none
      [interrupted.reply, running, broken.reply, ended.reply, busy.reply, done]
    (∀ reply ∈ [running, done], reply.cancels = false) ∧
      long.ending = .concluded (.ok ⟨some "success", .success, 6, [⟨"i-1", "db", .completed⟩]⟩) ∧
      keyed long.calls = [.create "i-1" "db: running", .update "i-1" "db: running",
        .resolve "i-1" .success "db: completed"] ∧
      long.calls = [.note "Fetch failed, retrying: workflow polling cancelled",
        .create "i-1" "db: running", .tick,
        .note "Fetch failed, retrying: resource db failed", .tick,
        .note "Fetch failed, retrying: workflow finished with status FAILED", .tick,
        .note "Fetch failed, retrying: failed to fetch workflow events: busy", .tick,
        .update "i-1" "db: running", .resolve "i-1" .success "db: completed"] := by
  intro db running done interrupted broken ended busy long
  have uncancelled : ∀ reply ∈ [running, done], reply.cancels = false := by decide
  have run := ofReplies_retries ⟨10, 100⟩ 0 [running, done] [[interrupted], [broken, ended, busy]]
    uncancelled
  obtain ⟨ending, -, same, -⟩ := run
  exact ⟨uncancelled, ending, same.trans (by decide +kernel), by decide +kernel⟩

end Run

end FleetControl
