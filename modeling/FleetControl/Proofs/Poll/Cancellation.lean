import FleetControl.Proofs.Poll.Display
import FleetControl.Proofs.Poll.Passing

/-!
# Cancellation

A run looks at its token before a fetch, while a fetch is pending and in a pause; a token may also
be cancelled at the very moment a reply arrives.

1. `Heeds` says what becomes of one fetch and its reply under a token, `CancelSafe` what a whole run
   does.
2. `heeds_go` reads the first off a single turn. A run that starts a fetch got past the replies
   before it, so every fetch of a run is a first one of `go` (`ofReplies_cancelSafe`).
3. A run resolves nothing before its last turn, and there only if it concludes with that reply.
-/

namespace FleetControl

namespace Run

/-- Where a run stands when it starts fetch `i`; its first one is fetch `0`. -/
def standing (cadence : Cadence) (cancel : Option Nat) (replies : List Reply) (i : Nat) : State :=
  State.past cadence ⟨0, 0, [], cancel⟩ (replies.take i)

/-- What becomes of a fetch and its reply in a run that was not cancelled before the fetch. The run
stood at `state` and had left the trace `before`; the reply arrives at
`state.time + reply.delay`. -/
structure Heeds (cadence : Cadence) (clock : Nat) (state : State) (before : List Moment)
    (reply : Reply) (run : Run) : Prop where
  /-- A fetch that is pending when the run is cancelled is abandoned without any display call. -/
  abandoned : ∀ moment, state.cancel = some moment → moment ≤ state.time + reply.delay →
    run = ⟨cancelled, moment, before ++ [.fetch]⟩
  /-- A result that arrives before the token is cancelled is applied, also if the token is
  cancelled as it arrives. -/
  applied : cancelledAt state.cancel (state.time + reply.delay) = false →
    before ++ shownBy state reply <+: run.trace
  /-- A result that is applied and decides is the end of the run. -/
  decided : cancelledAt state.cancel (state.time + reply.delay) = false → ∀ conclusion,
    (applyResult state.board (state.polls + 1) reply.result).conclusion = some conclusion →
      run = ⟨.concluded conclusion, state.time + reply.delay, before ++ shownBy state reply⟩
  /-- If the token is cancelled as a result arrives that does not decide, the run ends before any
  further tick or fetch. A pause that the clock of the process does not reach ends it as well. -/
  returned : cancelledAt state.cancel (state.time + reply.delay) = false → reply.passes →
    reply.cancels →
      run = ⟨if clock + (state.time + reply.delay) + cadence.interval < clockEnd then cancelled
          else .clockEnded, state.time + reply.delay, before ++ shownBy state reply⟩
  /-- If the token is cancelled in the pause, up to its very end, the run ends there, and the ticks
  until then are the only calls after the result. -/
  interrupted : reply.passes → reply.cancels = false →
    clock + (state.time + reply.delay) + cadence.interval < clockEnd → ∀ moment,
      state.cancel = some moment → state.time + reply.delay < moment →
        moment ≤ state.time + reply.delay + cadence.interval →
          run = ⟨cancelled, moment, before ++ (shownBy state reply ++ ticks cadence
            (reply.boardAfter state.board) (moment - (state.time + reply.delay)))⟩

/-- What a run does under a token. -/
structure CancelSafe (cadence : Cadence) (clock : Nat) (cancel : Option Nat) (replies : List Reply)
    (run : Run) : Prop where
  /-- A run is cancelled by its token only: at a time from then on, or as the reply to the last
  fetch arrives. A source that has no more replies leaves the last fetch pending until the token is
  cancelled. -/
  cause : run.ending = cancelled →
    cancelledAt cancel run.elapsed ∨
      (∃ n reply, run.fetches = n + 1 ∧ replies[n]? = some reply ∧ reply.cancels) ∨
      replies.length < run.fetches
  /-- A run that is cancelled has resolved nothing. -/
  unresolved : run.ending = cancelled → ∀ key outcome text,
    .resolve key outcome text ∉ run.calls
  /-- A run that is cancelled before it begins does nothing. -/
  unstarted : cancelledAt cancel 0 → run = ⟨cancelled, 0, []⟩
  /-- Once the token is cancelled no fetch is started; fetch `i` starts when the earlier replies and
  their pauses are over. -/
  started : ∀ i < run.fetches, cancelledAt cancel (spent cadence (replies.take i)) = false ∧
    ∀ reply ∈ replies.take i, reply.cancels = false
  /-- A fetch without a reply is abandoned without any display call. -/
  pending : ∀ i < run.fetches, replies[i]? = none →
    run = ⟨cancelled, spent cadence (replies.take i),
      passed cadence [] (replies.take i) ++ [.fetch]⟩
  /-- Every fetch with a reply heeds the token. -/
  heeds : ∀ i < run.fetches, ∀ reply, replies[i]? = some reply →
    Heeds cadence clock (standing cadence cancel replies i) (passed cadence [] (replies.take i))
      reply run

/-! ## One fetch -/

/-- A result that arrives before the token is cancelled is applied first of all. -/
theorem shownBy_prefix_go (cadence : Cadence) (clock : Nat) {state : State} (reply : Reply)
    (rest : List Reply) (later : cancelledAt state.cancel (state.time + reply.delay) = false) :
    shownBy state reply <+: (go cadence clock state (reply :: rest)).trace := by
  have awake := cancelledAt_of_le later (Nat.le_add_right state.time reply.delay)
  obtain ⟨run, turned, whole⟩ | ⟨-, -, -, whole⟩ := go_turn cadence clock reply rest awake
  · rw [whole]
    cases turned with
    | abandoned moment token early =>
      have asleep : cancelledAt state.cancel (state.time + reply.delay) := by
        simpa [token, cancelledAt] using early
      rw [later] at asleep
      cases asleep
    | concluded conclusion awake decided => exact List.prefix_rfl
    | clockEnded awake passes late => exact List.prefix_rfl
    | returned awake passes inTime cancels => exact List.prefix_rfl
    | interrupted passes inTime quiet moment token later within => exact List.prefix_append _ _
  · rw [whole]
    exact (List.prefix_append _ _).trans (List.prefix_append _ _)

theorem heeds_go (cadence : Cadence) (clock : Nat) {state : State} (before : List Moment)
    (reply : Reply) (rest : List Reply) (awake : cancelledAt state.cancel state.time = false) :
    Heeds cadence clock state before reply
      (after before (go cadence clock state (reply :: rest))) where
  abandoned moment token early := by
    rw [(Turned.abandoned moment token early).go_stop awake rest]
    rfl
  applied later :=
    (List.prefix_append_right_inj before).mpr (shownBy_prefix_go cadence clock reply rest later)
  decided later conclusion decided := by
    rw [(Turned.concluded conclusion later decided).go_stop awake rest]
    rfl
  returned later passes cancels := by
    by_cases inTime : clock + (state.time + reply.delay) + cadence.interval < clockEnd
    · rw [(Turned.returned later passes inTime cancels).go_stop awake rest, if_pos inTime]
      rfl
    · have late := Nat.le_of_not_lt inTime
      rw [(Turned.clockEnded later passes late).go_stop awake rest, if_neg inTime]
      rfl
  interrupted passes quiet inTime moment token later within := by
    rw [(Turned.interrupted passes inTime quiet moment token later within).go_stop awake rest]
    rfl

/-! ## Resolves -/

theorem mem_calls {run : Run} {call : Call} : call ∈ run.calls ↔ .call call ∈ run.trace := by
  unfold calls
  rw [List.mem_filterMap]
  constructor
  · rintro ⟨moment, hm, he⟩
    cases moment with
    | fetch => cases he
    | call other =>
      cases he
      exact hm
  · intro hm
    exact ⟨_, hm, rfl⟩

theorem resolve_not_mem_turn (cadence : Cadence) (length : Nat) {reply : Reply}
    (passes : reply.passes) (board later : Board) (key : String) (outcome : Outcome)
    (text : String) : .call (.resolve key outcome text) ∉
      .fetch :: (reply.calls board).map .call ++ ticks cadence later length := by
  obtain ⟨n, -, ht⟩ := exists_ticks cadence later length
  rw [ht, List.mem_append, List.mem_cons, List.mem_map, not_or, not_or]
  refine ⟨⟨nofun, ?_⟩, fun h => nomatch List.eq_of_mem_replicate h⟩
  rintro ⟨call, made, ⟨⟩⟩
  rcases Reply.shows_of_mem_calls passes made with shows | ⟨text, noted⟩
  · cases shows
  · cases noted

theorem resolve_not_mem_passed (cadence : Cadence) {replies : List Reply}
    (passes : ∀ reply ∈ replies, reply.passes) (board : Board) (key : String) (outcome : Outcome)
    (text : String) : .call (.resolve key outcome text) ∉ passed cadence board replies := by
  induction replies generalizing board with
  | nil => exact List.not_mem_nil
  | cons reply rest ih =>
    rw [List.forall_mem_cons] at passes
    rw [passed, List.mem_append, not_or]
    exact ⟨resolve_not_mem_turn cadence _ passes.1 board _ key outcome text, ih passes.2 _⟩

theorem conclusion_ne_cancelled {board : Board} {polls : UInt32} {reply : Reply}
    {conclusion : Conclusion}
    (decided : (applyResult board polls reply.result).conclusion = some conclusion) :
    Ending.concluded conclusion ≠ cancelled := by
  rintro ⟨⟩
  cases hr : reply.result with
  | error error =>
    rw [hr] at decided
    cases decided
  | ok fetch =>
    have verdict := Applied.conclusion_ofFetch board polls fetch
    rw [applyResult_of_ok hr] at decided
    rw [decided] at verdict
    exact verdict.2.2 rfl

/-- The turn that cancels a run resolves nothing. -/
theorem Turned.resolve_not_mem {cadence : Cadence} {clock : Nat} {state : State} {reply : Reply}
    {last : Run} (turned : Turned cadence clock state reply (.stop last))
    (ending : last.ending = cancelled) (key : String) (outcome : Outcome) (text : String) :
    .call (.resolve key outcome text) ∉ last.trace := by
  have shown (passes : reply.passes) (length : Nat) : .call (.resolve key outcome text) ∉
      shownBy state reply ++ ticks cadence (reply.boardAfter state.board) length := by
    unfold shownBy
    rw [applyResult_of_passes passes]
    exact resolve_not_mem_turn cadence length passes state.board _ key outcome text
  cases turned with
  | abandoned moment token early => nofun
  | concluded conclusion awake decided => exact absurd ending (conclusion_ne_cancelled decided)
  | clockEnded awake passes late => cases ending
  | returned awake passes inTime cancels =>
    exact fun h => shown passes 0 (List.mem_append_left _ h)
  | interrupted passes inTime quiet moment token later within => exact shown passes _

/-! ## Whole runs -/

/-- The turn that cancels a run is cancelled by the token or with its reply. -/
theorem Turned.cause {cadence : Cadence} {clock : Nat} {state : State} {reply : Reply} {last : Run}
    (turned : Turned cadence clock state reply (.stop last)) (ending : last.ending = cancelled) :
    cancelledAt state.cancel last.elapsed ∨ reply.cancels := by
  cases turned with
  | abandoned moment token early => exact .inl (by simp [token, cancelledAt])
  | concluded conclusion awake decided => exact absurd ending (conclusion_ne_cancelled decided)
  | clockEnded awake passes late => cases ending
  | returned awake passes inTime cancels => exact .inr cancels
  | interrupted passes inTime quiet moment token later within =>
    exact .inl (by simp [token, cancelledAt])

/-- Cancellation is safe in every run, for any replies, any moment of cancellation and any replies
that the token is cancelled with. -/
theorem ofReplies_cancelSafe (cadence : Cadence) (clock : Nat) (cancel : Option Nat)
    (replies : List Reply) :
    CancelSafe cadence clock cancel replies (ofReplies cadence clock cancel replies) where
  cause ending := by
    obtain ⟨asleep, whole⟩ | ⟨n, last, count, whole, -, ⟨missing, -⟩ | ⟨reply, here, turned⟩⟩ :=
      go_last cadence clock ⟨0, 0, [], cancel⟩ replies
    · left
      rw [ofReplies, whole]
      exact asleep
    · right; right
      show replies.length < (go cadence clock ⟨0, 0, [], cancel⟩ replies).fetches
      omega
    · rw [ofReplies, whole] at ending
      rcases turned.cause ending with asleep | cancels
      · left
        rw [State.token_past] at asleep
        rw [ofReplies, whole]
        exact asleep
      · exact .inr (.inl ⟨n, reply, count, here, cancels⟩)
  unresolved ending key outcome text := by
    rw [mem_calls]
    intro resolved
    obtain ⟨-, whole⟩ | ⟨n, last, -, whole, passes, pending | ⟨reply, -, turned⟩⟩ :=
      go_last cadence clock ⟨0, 0, [], cancel⟩ replies
    · rw [ofReplies, whole] at resolved
      cases resolved
    · rw [ofReplies, whole, pending.2] at resolved
      rcases List.mem_append.mp resolved with earlier | last
      · exact resolve_not_mem_passed cadence passes [] key outcome text earlier
      · cases List.mem_singleton.mp last
    · rw [ofReplies, whole] at ending resolved
      rcases List.mem_append.mp resolved with earlier | last
      · exact resolve_not_mem_passed cadence passes [] key outcome text earlier
      · exact turned.resolve_not_mem ending key outcome text last
  unstarted asleep := go_cancelled cadence clock replies asleep
  started i started := by
    obtain ⟨-, awake, before⟩ := go_advance cadence clock started
    rw [State.token_past, State.time_past, Nat.zero_add] at awake
    exact ⟨awake, fun reply hr => (before reply hr).2⟩
  pending i started missing := by
    obtain ⟨whole, awake, -⟩ := go_advance cadence clock started
    rw [List.drop_eq_nil_iff.mpr (List.getElem?_eq_none_iff.mp missing), go, awake,
      State.time_past, Nat.zero_add] at whole
    exact whole
  heeds i started reply here := by
    obtain ⟨whole, awake, -⟩ := go_advance cadence clock started
    obtain ⟨inside, rfl⟩ := List.getElem?_eq_some_iff.mp here
    rw [List.drop_eq_getElem_cons inside] at whole
    unfold ofReplies
    rw [whole]
    exact heeds_go cadence clock _ _ _ awake

end Run

end FleetControl
