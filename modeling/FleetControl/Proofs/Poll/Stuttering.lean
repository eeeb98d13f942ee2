import FleetControl.Proofs.Poll.Logged
import FleetControl.Proofs.Poll.Retrying

/-!
# Fetches that repeat

A fetch that brings once more what the fetch before it brought leaves no line in a log.

1. `Reply.copies` are further replies that bring the same, each after its own time.
2. Shown once more, entries leave the board as it is (`Reply.boardAfter_again`), and every call is
   an update to the text that its key shows already (`Reply.shown_again`).
3. `Known` collects what this says of a reply that comes again, and `known_after` that it holds
   right after the reply. So the rounds of the copies are those of one reply, over and over
   (`rounds_copies`), and a run that gets past them leaves the same display
   (`Known.ofReplies_reached`). A run that ends before them never fetches them (`ofReplies_ended`).
4. `ofReplies_stutterFree` says this of all runs, and what their logs hold.
-/

namespace FleetControl

open Recording

/-- Further replies that bring what a reply brings. -/
def Reply.copies (reply : Reply) (delays : List Nat) : List Reply :=
  delays.map fun delay => ⟨delay, reply.result, false⟩

theorem Report.later_zero (report : Report) : report.later 0 = report := by
  have same : report.polls + UInt32.ofNat 0 = report.polls := UInt32.add_zero _
  unfold later
  rw [same]

theorem Ending.later_zero (ending : Ending) : ending.later 0 = ending := by
  cases ending with
  | clockEnded => rfl
  | concluded conclusion =>
    cases conclusion with
    | error error => rfl
    | ok report => exact congrArg (fun report => Ending.concluded (.ok report)) report.later_zero

/-! ## Entries that are shown again -/

namespace Board

theorem showing_known {entries : List Resource} {r : Resource} (known : r.key ∈ firstKeys entries)
    (name : lastName entries r.key = r.displayName) (done : List String) :
    showing (entries ++ [r]) done = showing entries done := by
  unfold showing
  rw [firstKeys_snoc, if_pos known]
  refine List.map_congr_left fun key _ => ?_
  rw [lastName_snoc]
  split
  · next same => rw [← same, name]
  · rfl

theorem showing_again {entries more : List Resource}
    (known : ∀ r ∈ more, r.key ∈ firstKeys entries ∧ lastName entries r.key = r.displayName)
    (done : List String) : showing (entries ++ more) done = showing entries done := by
  induction more using List.reverseRecOn with
  | nil => rw [List.append_nil]
  | append_singleton more r ih =>
    -- the board without the entry says that its key is known, and by which name
    obtain ⟨key, name⟩ := known r (by simp)
    have same := ih fun other ho => known other (List.mem_append_left _ ho)
    rw [← List.append_assoc, showing_known ?_ ?_, same]
    · rwa [← keys_showing _ done, same, keys_showing]
    · rwa [← nameOf_showing _ done, same, nameOf_showing]

end Board

theorem update_of_mem_showCalls {earlier entries : List Resource}
    (known : ∀ r ∈ entries, r.key ∈ firstKeys earlier) (unfailed : failedKeys entries = [])
    {call : Call} (h : call ∈ showCalls earlier entries) :
    ∃ r ∈ entries, call = .update r.key (r.summaryLine r.status) := by
  induction entries generalizing earlier with
  | nil => exact absurd h List.not_mem_nil
  | cons r rest ih =>
    rw [List.forall_mem_cons] at known
    have spared : r.status ≠ .failed ∧ failedKeys rest = [] := by
      unfold failedKeys at unfailed ⊢
      rw [List.map_eq_nil_iff, List.filter_eq_nil_iff, List.forall_mem_cons] at unfailed
      rw [List.map_eq_nil_iff, List.filter_eq_nil_iff]
      exact ⟨by simpa using unfailed.1, unfailed.2⟩
    rcases List.mem_append.mp h with own | later
    · unfold entryCalls at own
      dsimp only at own
      rw [if_neg spared.1, if_pos known.1] at own
      exact ⟨r, List.mem_cons_self, List.mem_singleton.mp own⟩
    · have grown : ∀ other ∈ rest, other.key ∈ firstKeys (earlier ++ [r]) := by
        intro other ho
        obtain ⟨first, hf, same⟩ := mem_firstKeys.mp (known.2 other ho)
        exact mem_firstKeys.mpr ⟨first, List.mem_append_left _ hf, same⟩
      obtain ⟨other, ho, update⟩ := ih grown spared.2 later
      exact ⟨other, List.mem_cons_of_mem _ ho, update⟩

theorem Recording.lastText?_showCalls (past : List Call) (earlier : List Resource)
    {entries : List Resource} (distinct : (entries.map (·.key)).Nodup) {r : Resource}
    (h : r ∈ entries) :
    lastText? (past ++ showCalls earlier entries) r.key = some (r.summaryLine r.status) := by
  induction entries generalizing past earlier with
  | nil => exact absurd h List.not_mem_nil
  | cons first rest ih =>
    rw [List.map_cons, List.nodup_cons] at distinct
    rw [showCalls, ← List.append_assoc]
    rcases List.mem_cons.mp h with rfl | h
    · rw [lastText?_append_of_not_mem]
      · -- the resolve of a failed entry has the line of the entry
        unfold entryCalls lastText?
        dsimp only
        rw [List.foldl_append]
        split <;> split <;> simp [Call.shown?]
      · intro call hc same
        obtain ⟨other, ho, key, -⟩ := of_mem_showCalls hc
        exact distinct.1 (Option.some.inj (key.symm.trans same) ▸ List.mem_map_of_mem ho)
    · exact ih _ _ distinct.2 h

namespace Reply

variable {reply : Reply} (earlier : List Resource)

theorem known_entries (distinct : reply.Distinct) :
    ∀ r ∈ reply.entries, r.key ∈ firstKeys (earlier ++ reply.entries) ∧
      lastName (earlier ++ reply.entries) r.key = r.displayName :=
  fun r hr => ⟨mem_firstKeys.mpr ⟨r, List.mem_append_right _ hr, rfl⟩,
    lastName_append_of_mem earlier (nodup_entries distinct) hr⟩

/-- A reply that passes leaves the board as it is when it comes again. -/
theorem boardAfter_again (passes : reply.passes) (distinct : reply.Distinct) :
    reply.boardAfter (.showing (earlier ++ reply.entries) []) =
      .showing (earlier ++ reply.entries) [] := by
  rw [boardAfter_showing _ passes distinct, Board.showing_again (known_entries earlier distinct)]

theorem calls_of_ok {fetch : Fetch} (brings : reply.result = .ok fetch)
    (distinct : reply.Distinct) :
    reply.calls (.showing earlier []) = showCalls earlier reply.entries := by
  have own : reply.entries = fetch.shown := by
    unfold entries
    rw [brings]
  unfold calls
  rw [brings, own]
  dsimp only
  rw [observeAll_showing earlier _ (Fetch.nodup_shown (distinct fetch brings))
    fun _ _ => List.not_mem_nil]

/-- When such a fetch comes again, every call is an update to what its key shows already. -/
theorem shown_again {fetch : Fetch} (brings : reply.result = .ok fetch) (passes : reply.passes)
    (distinct : reply.Distinct) (past : List Call) {call : Call}
    (h : call ∈ reply.calls (.showing (earlier ++ reply.entries) [])) :
    ∃ key text, call = .update key text ∧
      lastText? (past ++ reply.calls (.showing earlier [])) key = some text := by
  rw [calls_of_ok _ brings distinct] at h ⊢
  obtain ⟨r, hr, rfl⟩ := update_of_mem_showCalls
    (fun r hr => (known_entries earlier distinct r hr).1) (failedKeys_entries passes) h
  exact ⟨r.key, _, rfl, lastText?_showCalls past earlier (nodup_entries distinct) hr⟩

end Reply

namespace Run

/-! ## The rounds of copies -/

theorem rounds_append (board : Board) (xs ys : List Reply) :
    rounds board (xs ++ ys) = rounds board xs ++ rounds (boardPast board xs) ys := by
  induction xs generalizing board with
  | nil => rfl
  | cons reply rest ih => exact congrArg (reply.calls board :: ·) (ih _)

section Copies

variable {board : Board} {reply : Reply} (stable : reply.boardAfter board = board)
  (delays : List Nat) (rest : List Reply)
include stable

theorem boardPast_copies :
    boardPast board (reply.copies delays ++ rest) = boardPast board rest := by
  induction delays with
  | nil => rfl
  | cons delay delays ih =>
    change boardPast (reply.boardAfter board) (reply.copies delays ++ rest) = _
    rw [stable, ih]

theorem rounds_copies : rounds board (reply.copies delays ++ rest) =
    List.replicate delays.length (reply.calls board) ++ rounds board rest := by
  induction delays with
  | nil => rfl
  | cons delay delays ih =>
    change reply.calls board :: rounds (reply.boardAfter board) (reply.copies delays ++ rest) = _
    rw [stable, ih]
    rfl

end Copies

theorem recorded_callsOf (trace : List Moment) :
    Recording.recorded (callsOf trace) = callsOf (timeless trace) := by
  induction trace with
  | nil => rfl
  | cons moment trace ih =>
    rcases moment with _ | call
    · exact ih
    · cases call with
      | tick => exact ih
      | note text => exact congrArg (.note text :: ·) ih
      | create key text => exact congrArg (.create key text :: ·) ih
      | update key text => exact congrArg (.update key text :: ·) ih
      | resolve key outcome text => exact congrArg (.resolve key outcome text :: ·) ih

theorem boardPast_showing {replies : List Reply} (passes : ∀ reply ∈ replies, reply.passes)
    (distinct : ∀ reply ∈ replies, reply.Distinct) :
    boardPast [] replies = .showing (replies.flatMap Reply.entries) [] := by
  have board := State.board_past ⟨0, 0⟩ ⟨0, 0, [], none⟩ replies (Board.showing_nil []).symm passes
    distinct
  rwa [State.board_past_eq] at board

/-! ## Whole runs -/

theorem passes_copies {reply : Reply} (passes : reply.passes) (delays : List Nat) :
    ∀ copy ∈ reply.copies delays, copy.passes := by
  intro copy hc
  obtain ⟨delay, -, rfl⟩ := List.mem_map.mp hc
  exact passes

theorem uncancelled_copies (reply : Reply) (delays : List Nat) :
    ∀ copy ∈ reply.copies delays, copy.cancels = false := by
  intro copy hc
  obtain ⟨delay, -, rfl⟩ := List.mem_map.mp hc
  rfl

theorem polls_past_copies (cadence : Cadence) (state : State) (first : List Reply) (reply : Reply)
    (delays : List Nat) (rest : List Reply) :
    (state.past cadence (first ++ (reply.copies delays ++ rest))).polls =
      (state.past cadence (first ++ rest)).polls + UInt32.ofNat delays.length := by
  have longer : (first ++ (reply.copies delays ++ rest)).length =
      (first ++ rest).length + delays.length := by
    simp only [List.length_append, Reply.copies, List.length_map]
    omega
  rw [State.polls_past, State.polls_past, longer, UInt32.ofNat_add, UInt32.add_assoc]

/-- Whether a reply that comes again after these replies has nothing new to show. -/
structure Known (first : List Reply) (reply : Reply) : Prop where
  before : ∀ r ∈ first, r.passes
  passes : reply.passes
  stable : reply.boardAfter (boardPast [] first) = boardPast [] first
  shown : ∀ call ∈ reply.calls (boardPast [] first), ∃ key text, call = .update key text ∧
    lastText? (rounds [] first).flatten key = some text

theorem known_after {before : List Reply} {reply : Reply} {fetch : Fetch}
    (brings : reply.result = .ok fetch) (passes : ∀ r ∈ before ++ [reply], r.passes)
    (distinct : ∀ r ∈ before ++ [reply], r.Distinct) : Known (before ++ [reply]) reply := by
  have board := boardPast_showing passes distinct
  rw [List.flatMap_append, List.flatMap_singleton] at board
  have own := List.forall_mem_append.mp passes
  have earlier := List.forall_mem_append.mp distinct
  have last : (rounds [] (before ++ [reply])).flatten =
      (rounds [] before).flatten ++ reply.calls (.showing (before.flatMap Reply.entries) []) := by
    rw [rounds_append, List.flatten_append, boardPast_showing own.1 earlier.1]
    exact congrArg _ (List.append_nil _)
  have passes_last := own.2 reply (List.mem_singleton_self reply)
  have distinct_last := earlier.2 reply (List.mem_singleton_self reply)
  refine ⟨passes, passes_last, ?_, ?_⟩
  · rw [board]
    exact Reply.boardAfter_again _ passes_last distinct_last
  · rw [board, last]
    exact fun call hc => Reply.shown_again _ brings passes_last distinct_last _ hc

theorem plainDisplay_of_rounds (run : Run) {rounds : List (List Call)}
    (known : timeless run.trace = rounds.flatMap fetched) :
    Terminal.plainDisplay run.calls = Terminal.plainDisplay rounds.flatten := by
  have calls : Recording.recorded run.calls = rounds.flatten := by
    rw [← callsOf_fetched, ← known]
    exact recorded_callsOf run.trace
  rw [← Terminal.plainDisplay_recorded, calls]

section

variable {first : List Reply} {reply : Reply} (known : Known first reply) (delays : List Nat)
include known

theorem Known.boardPast_eq (rest : List Reply) :
    boardPast [] (first ++ (reply.copies delays ++ rest)) = boardPast [] (first ++ rest) := by
  rw [boardPast_append, boardPast_copies known.stable, boardPast_append]

theorem Known.board_past (cadence : Cadence) {state : State} (start : state.board = [])
    (rest : List Reply) : (state.past cadence (first ++ (reply.copies delays ++ rest))).board =
      (state.past cadence (first ++ rest)).board := by
  rw [State.board_past_eq, State.board_past_eq, start]
  exact known.boardPast_eq delays rest

/-- The rounds of the copies leave a display that draws nothing in place as it is. -/
theorem Known.plainDisplay_eq (rest : List Reply) (calls : List Call) :
    Terminal.plainDisplay (rounds [] (first ++ (reply.copies delays ++ rest)) ++ [calls]).flatten =
      Terminal.plainDisplay (rounds [] (first ++ rest) ++ [calls]).flatten := by
  have again : ∀ call ∈ (List.replicate delays.length (reply.calls (boardPast [] first))).flatten,
      ∃ key text, call = .update key text ∧
        lastText? (rounds [] first).flatten key = some text := by
    intro call hc
    obtain ⟨round, hr, hc⟩ := List.mem_flatten.mp hc
    rw [List.eq_of_mem_replicate hr] at hc
    exact known.shown call hc
  have still := Terminal.plainDisplay_updates
    ((rounds (boardPast [] first) rest).flatten ++ calls) again
  rw [rounds_append, rounds_copies known.stable, rounds_append]
  simpa only [List.flatten_append, List.flatten_singleton, List.append_assoc] using still

/-- Copies of a fetch leave a display that draws nothing in place as it is, and the end of the run
but for the number of fetches. -/
theorem Known.ofReplies_copies (cadence : Cadence) (clock : Nat) {after : List Reply}
    (uncancelled : ∀ r ∈ first ++ after, r.cancels = false)
    (lasts : Lasts cadence clock
      (first ++ (reply.copies delays ++ after.takeWhile Reply.passes))) :
    let short := ofReplies cadence clock none (first ++ after)
    let long := ofReplies cadence clock none (first ++ (reply.copies delays ++ after))
    Terminal.plainDisplay long.calls = Terminal.plainDisplay short.calls ∧
      long.ending = short.ending.later delays.length := by
  intro short long
  have parts := List.takeWhile_append_dropWhile (p := Reply.passes) (l := after)
  have stops := stops_dropWhile after
  have more : ∀ r ∈ after.takeWhile Reply.passes, r.passes := fun _ => passes_of_mem_takeWhile
  generalize after.takeWhile Reply.passes = rest at parts lasts more
  generalize after.dropWhile Reply.passes = tail at parts stops
  subst parts
  -- both runs come to the same fetch on the same board, one of them later
  have quiet : ∀ r ∈ first ++ rest, r.cancels = false :=
    fun r hr => uncancelled r (by rw [← List.append_assoc]; exact List.mem_append_left _ hr)
  have passes : ∀ r ∈ first ++ rest, r.passes := List.forall_mem_append.mpr
    ⟨known.before, more⟩
  have passes_later : ∀ r ∈ first ++ (reply.copies delays ++ rest), r.passes := by
    simp only [List.forall_mem_append] at passes ⊢
    exact ⟨passes.1, passes_copies known.passes delays, passes.2⟩
  have quiet_later : ∀ r ∈ first ++ (reply.copies delays ++ rest), r.cancels = false := by
    simp only [List.forall_mem_append] at quiet ⊢
    exact ⟨quiet.1, uncancelled_copies reply delays, quiet.2⟩
  have shorter : Lasts cadence clock (first ++ rest) :=
    lasts_of_sublist ((List.sublist_append_right ..).append_left first) lasts
  obtain ⟨calls, still, last, last_later, ending⟩ := go_last_later cadence clock tail
    (State.token_past cadence ⟨0, 0, [], none⟩ (first ++ rest)) (State.token_past ..)
    (known.board_past delays cadence rfl rest) (polls_past_copies ..) stops
  have trace := timeless_go_past cadence clock ⟨0, 0, [], none⟩ (first ++ rest) tail rfl quiet
    passes shorter still last
  have trace_later := timeless_go_past cadence clock ⟨0, 0, [], none⟩
    (first ++ (reply.copies delays ++ rest)) tail rfl quiet_later passes_later lasts still
    last_later
  have past := go_past cadence clock ⟨0, 0, [], none⟩ (first ++ rest) tail rfl quiet passes shorter
  have past_later := go_past cadence clock ⟨0, 0, [], none⟩
    (first ++ (reply.copies delays ++ rest)) tail rfl quiet_later passes_later lasts
  rw [List.append_assoc] at trace past
  rw [List.append_assoc, List.append_assoc] at trace_later past_later
  constructor
  · rw [plainDisplay_of_rounds long trace_later, known.plainDisplay_eq,
      plainDisplay_of_rounds short trace]
  · have ends := congrArg Run.ending past
    have ends_later := congrArg Run.ending past_later
    exact ends_later.trans (ending.trans (congrArg (Ending.later delays.length) ends.symm))

end

theorem go_ended (cadence : Cadence) (clock : Nat) {state : State} {first : List Reply}
    {last : Reply} (quiet : state.cancel = none)
    (uncancelled : ∀ r ∈ first, r.cancels = false) (passes : ∀ r ∈ first, r.passes)
    (stops : last.passes = false) (lasts : Lasts cadence (clock + state.time) first)
    (xs ys : List Reply) :
    go cadence clock state (first ++ last :: xs) =
      go cadence clock state (first ++ last :: ys) := by
  have awake := cancelledAt_of_quiet ((State.token_past cadence state first).trans quiet)
  -- the turn of that reply stops with a run in which nothing of the rest occurs
  have concludes : (applyResult (state.past cadence first).board
      ((state.past cadence first).polls + 1) last.result).conclusion ≠ none := by
    rw [Ne, conclusion_applyResult, stops]
    exact Bool.false_ne_true
  obtain ⟨conclusion, concluded⟩ := Option.ne_none_iff_exists'.mp concludes
  have turned : Turned cadence clock (state.past cadence first) last _ :=
    .concluded conclusion (awake _) concluded
  rw [go_past cadence clock state first _ quiet uncancelled passes lasts,
    go_past cadence clock state first _ quiet uncancelled passes lasts,
    turned.go_stop (awake _), turned.go_stop (awake _)]

theorem ofReplies_ended (cadence : Cadence) (clock : Nat) {before : List Reply}
    (uncancelled : ∀ r ∈ before, r.cancels = false) (ends : before.all Reply.passes = false)
    (xs ys : List Reply) :
    if Lasts cadence clock ((before ++ ys).takeWhile Reply.passes) then
      ofReplies cadence clock none (before ++ ys) = ofReplies cadence clock none (before ++ xs)
    else (ofReplies cadence clock none (before ++ ys)).ending = .clockEnded := by
  have parts := List.takeWhile_append_dropWhile (p := Reply.passes) (l := before)
  have passes : ∀ r ∈ before.takeWhile Reply.passes, r.passes := fun _ => passes_of_mem_takeWhile
  have stops := stops_dropWhile before
  cases left : before.dropWhile Reply.passes with
  | nil =>
    rw [left, List.append_nil] at parts
    have all : (before.takeWhile Reply.passes).all Reply.passes := List.all_takeWhile
    rw [parts, ends] at all
    exact absurd all Bool.false_ne_true
  | cons last others =>
    rw [left] at parts stops
    have stops : last.passes = false := stops last rfl
    generalize before.takeWhile Reply.passes = first at parts passes
    subst parts
    rw [List.forall_mem_append] at uncancelled
    have whole (rest : List Reply) : first ++ last :: others ++ rest =
        first ++ last :: (others ++ rest) := List.append_assoc ..
    rw [whole, whole, List.takeWhile_append_of_pos passes,
      List.takeWhile_cons_of_neg (by simp [stops]), List.append_nil]
    split
    · next lasts =>
      exact go_ended cadence clock rfl uncancelled.1 passes stops (by simpa using lasts) _ _
    · next late =>
      exact go_late cadence clock _ first _ rfl uncancelled.1 passes (by simpa using late)

theorem Known.ofReplies_reached {first : List Reply} {reply : Reply} (known : Known first reply)
    (delays : List Nat) (cadence : Cadence) (clock : Nat) {after : List Reply}
    (uncancelled : ∀ r ∈ first ++ after, r.cancels = false) :
    let longer := first ++ (reply.copies delays ++ after)
    let short := ofReplies cadence clock none (first ++ after)
    let long := ofReplies cadence clock none longer
    if Lasts cadence clock (longer.takeWhile Reply.passes) then
      Terminal.plainDisplay long.calls = Terminal.plainDisplay short.calls ∧
        long.ending = short.ending.later delays.length
    else long.ending = .clockEnded := by
  intro longer short long
  have passes := known.before
  have copies := passes_copies known.passes delays
  have longest : longer.takeWhile Reply.passes =
      first ++ (reply.copies delays ++ after.takeWhile Reply.passes) := by
    rw [List.takeWhile_append_of_pos passes, List.takeWhile_append_of_pos copies]
  rw [longest]
  split
  · next lasts => exact known.ofReplies_copies delays cadence clock uncancelled lasts
  · next late =>
    have parts : longer = first ++ (reply.copies delays ++ after.takeWhile Reply.passes) ++
        after.dropWhile Reply.passes := by
      rw [List.append_assoc, List.append_assoc, List.takeWhile_append_dropWhile]
    have whole : long = go cadence clock ⟨0, 0, [], none⟩ longer := rfl
    rw [whole, parts]
    refine go_late cadence clock _ _ _ rfl ?_ ?_ (by simpa using late)
    · simp only [List.forall_mem_append] at uncancelled ⊢
      exact ⟨uncancelled.1, uncancelled_copies reply delays,
        fun r hr => uncancelled.2 r ((List.takeWhile_prefix _).subset hr)⟩
    · simp only [List.forall_mem_append]
      exact ⟨passes, copies, fun _ => passes_of_mem_takeWhile⟩

/-- Plain progress output is free of stutter. For every sequence of replies, none of which cancels
the run, whose fetches list no key twice and whose names and error texts have no line end, a display
that draws nothing in place and whose writer never fails writes a log that can be read back line by
line, and it holds what `Logs` says: nothing else is in it, and nothing of the ticks.

Any number of copies of a fetch that does not decide, right after it, leave what is written and the
end of the run but for the number of fetches that a report counts; copies after the end of the run
are not fetched. The copies take time: if they push a pause past the clock of the process, the run
ends there. -/
theorem ofReplies_stutterFree (cadence : Cadence) (clock : Nat) (replies : List Reply)
    (uncancelled : ∀ reply ∈ replies, reply.cancels = false)
    (distinct : ∀ reply ∈ replies, reply.Distinct)
    (unbroken : ∀ reply ∈ replies, reply.Unbroken) :
    let run := ofReplies cadence clock none replies
    let written := (Terminal.plainDisplay run.calls).sink.taken
    let lines := log run.calls
    (written.toList = Text.utf8 (LogLine.allWritten lines) ∧
      (LogLine.allWritten lines).toList.splitOn '\n' = lines.map (·.shown.toList) ++ [[]] ∧
      Logs (replies.take run.fetches) run.ending.Returns lines) ∧
    ∀ before reply after fetch delays, replies = before ++ reply :: after →
      reply.result = .ok fetch → fetch.decides = false →
      let longer := before ++ reply :: (reply.copies delays ++ after)
      let long := ofReplies cadence clock none longer
      if Lasts cadence clock (longer.takeWhile Reply.passes) then
        (Terminal.plainDisplay long.calls).sink.taken = written ∧
          long.ending = run.ending.later (if before.all Reply.passes then delays.length else 0)
      else long.ending = .clockEnded := by
  intro run written lines
  constructor
  · obtain ⟨known, logs⟩ := go_logged cadence clock uncancelled distinct
    refine ⟨(Terminal.keeps_plainDisplay run.calls).2.2, ?_, logs⟩
    refine LogLine.splitOn_allWritten fun line hl => ?_
    exact unbroken_of_mem_log known (fun reply hr => unbroken reply (List.mem_of_mem_take hr)) hl
  · rintro before reply after fetch delays rfl brings undecided longer long
    have passes : reply.passes := by
      unfold Reply.passes
      rw [brings]
      simp [undecided]
    -- the run gets past the replies before the fetch, or one of them ends it
    cases reached : before.all Reply.passes with
    | true =>
      rw [List.all_eq_true] at reached
      rw [List.append_cons] at uncancelled distinct
      have known : Known (before ++ [reply]) reply :=
        known_after brings (List.forall_mem_append.mpr ⟨reached, by simpa using passes⟩)
          (List.forall_mem_append.mp distinct).1
      have copies := known.ofReplies_reached delays cadence clock uncancelled
      rw [← List.append_cons, ← List.append_cons] at copies
      split
      · next lasts =>
        rw [if_pos lasts] at copies
        exact ⟨congrArg (·.sink.taken) copies.1, copies.2⟩
      · next late => rwa [if_neg late] at copies
    | false =>
      have ended := ofReplies_ended cadence clock
        (fun r hr => uncancelled r (List.mem_append_left _ hr)) reached (reply :: after)
        (reply :: (reply.copies delays ++ after))
      split
      · next lasts =>
        rw [if_pos lasts] at ended
        have same : long = run := ended
        rw [same]
        exact ⟨rfl, run.ending.later_zero.symm⟩
      · next late => rwa [if_neg late] at ended

/-- A resource vanishes, and comes back as it was; copies of the first fetch change nothing. -/
theorem ofReplies_stutterFree_vanishing :
    let db (status : String) : Resource := ⟨"i-1", "db", Steps.empty, some status⟩
    let web : Resource := ⟨"i-2", "web", Steps.empty, some "running"⟩
    let first : Reply := .prompt (.ok ⟨[db "running"], some (.ofStatus "running")⟩)
    let later : List Reply := [.prompt (.error (.fetch "busy")),
      .prompt (.ok ⟨[web], some (.ofStatus "running")⟩),
      .prompt (.ok ⟨[web, db "running"], some (.ofStatus "running")⟩),
      .prompt (.ok ⟨[db "stopped"], some (.ofStatus "success")⟩)]
    let short := ofReplies ⟨10, 100⟩ 0 none (first :: later)
    let long := ofReplies ⟨10, 100⟩ 0 none (first :: (first.copies [0, 5] ++ later))
    (∀ reply ∈ first :: later, reply.cancels = false) ∧
      (∀ reply ∈ first :: later, reply.Distinct) ∧ (∀ reply ∈ first :: later, reply.Unbroken) ∧
      (Terminal.plainDisplay long.calls).sink.taken.toList = Text.utf8 ("○ db: running\n" ++
        "! Fetch failed, retrying: failed to fetch workflow events: busy\n" ++
        "○ web: running\n" ++ "◐ db: completed\n" ++ "✓ db: completed\n" ++
        "✓ web: completed\n") ∧
      long.ending = short.ending.later 2 := by
  intro db web first later short long
  have uncancelled : ∀ reply ∈ first :: later, reply.cancels = false := by decide
  have distinct : ∀ reply ∈ first :: later, reply.Distinct := by
    simp only [first, later, List.forall_mem_cons, Reply.Distinct, Reply.prompt]
    refine ⟨?_, ?_, ?_, ?_, ?_, List.forall_mem_nil _⟩ <;> rintro fetch ⟨⟩ <;> decide
  have unbroken : ∀ reply ∈ first :: later, reply.Unbroken := by decide
  have run := ofReplies_stutterFree ⟨10, 100⟩ 0 (first :: later) uncancelled distinct unbroken
  obtain ⟨-, copies⟩ := run
  have copied := copies [] first later _ [0, 5] rfl rfl (by decide)
  have lasts : Lasts ⟨10, 100⟩ 0
      ((first :: (first.copies [0, 5] ++ later)).takeWhile Reply.passes) := by decide
  dsimp only [List.nil_append] at copied
  rw [if_pos lasts] at copied
  obtain ⟨same, ending⟩ := copied
  refine ⟨uncancelled, distinct, unbroken, ?_, ending⟩
  rw [same]
  decide +kernel

/-- Without a workflow record the resources of a fetch are not shown: the last fetch lists the
resource under a new line, and the log holds no line of it. -/
theorem log_unrecorded :
    let db (status : String) : Resource := ⟨"i-1", "db", Steps.empty, some status⟩
    let replies : List Reply := [.prompt (.ok ⟨[db "running"], some (.ofStatus "running")⟩),
      .prompt (.ok ⟨[db "pending"], none⟩)]
    let run := ofReplies ⟨10, 100⟩ 0 none replies
    let listed := replies.flatMap fun reply => (reply.brings.map (·.resources)).getD []
    (∀ reply ∈ replies, reply.cancels = false) ∧ (∀ reply ∈ replies, reply.Distinct) ∧
      (∀ reply ∈ replies, reply.Unbroken) ∧ run.fetches = 2 ∧
      linesOf "i-1" listed = ["db: running", "db: pending"] ∧
      (Terminal.plainDisplay run.calls).sink.taken.toList =
        Text.utf8 ("○ db: running\n" ++ "✓ db: completed\n") ∧
      ¬ ∃ outcome text, (log run.calls).filter (·.owner == some "i-1") =
        changes "i-1" (linesOf "i-1" listed) ++ [.settled "i-1" outcome text] := by
  intro db replies run listed
  have distinct : ∀ reply ∈ replies, reply.Distinct := by
    simp only [replies, List.forall_mem_cons, Reply.Distinct, Reply.prompt]
    refine ⟨?_, ?_, List.forall_mem_nil _⟩ <;> rintro fetch ⟨⟩ <;> decide
  have lines : (log run.calls).filter (·.owner == some "i-1") =
      [.opened "i-1" "db: running", .settled "i-1" .success "db: completed"] := by decide +kernel
  have texts : linesOf "i-1" listed = ["db: running", "db: pending"] := by decide +kernel
  refine ⟨by decide, distinct, by decide, by decide +kernel, texts, by decide +kernel, ?_⟩
  have two : (changes "i-1" ["db: running", "db: pending"]).length = 2 := by decide +kernel
  rintro ⟨outcome, text, same⟩
  rw [lines, texts] at same
  have longer := congrArg List.length same
  rw [List.length_append, two] at longer
  cases longer

end Run

end FleetControl
