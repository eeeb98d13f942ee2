import FleetControl.Proofs.Poll.Turn
import FleetControl.Proofs.Progress.Lifecycle

/-!
# What a run does to its display

The calls of a run on its display, for any replies: fetches may list a key several times.

1. `Recording.showEntries` lists the calls that entries must cause after the calls made so far.
2. A board that reflects the calls made so far shows entries with exactly these, and whatever is
   applied to it keeps the agreement (`reflects_applyResult`).
3. So the trace of every run accounts for every entry of every fetch it applied, each key lives
   one life, and nothing ticks before there is something to show.
-/

namespace FleetControl

/-- Whether a call shows a resource: only a create and an update do. -/
def Call.shows : Call → Bool
  | .create _ _ => true
  | .update _ _ => true
  | _ => false

namespace Recording

/-- The calls that an entry must cause after the calls made so far: none if its key was resolved,
else one create or one update with the summary line under its own status, and then the resolve of
one that failed. -/
def showEntry (past : List Call) (r : Resource) : List Call :=
  if r.key ∈ resolvedKeys past then []
  else
    let line := r.summaryLine r.status
    (if r.key ∈ createdKeys past then .update r.key line else .create r.key line) ::
      if r.status = .failed then [.resolve r.key .error line] else []

/-- The calls that several entries must cause in turn. -/
def showEntries (past : List Call) : List Resource → List Call
  | [] => []
  | r :: rest =>
    let calls := showEntry past r
    calls ++ showEntries (past ++ calls) rest

/-- Whether every tick comes after a create; `past` are the calls before these. -/
def TicksShow (past calls : List Call) : Prop :=
  ∀ before after, calls = before ++ .tick :: after → createdKeys (past ++ before) ≠ []

theorem ticksShow_of_not_mem {calls : List Call} (past : List Call) (h : .tick ∉ calls) :
    TicksShow past calls := by
  rintro before after rfl
  exact absurd (by simp) h

theorem ticksShow_of_created {past : List Call} (calls : List Call) (h : createdKeys past ≠ []) :
    TicksShow past calls := by
  intro before after _
  rw [createdKeys_append]
  simp [h]

theorem TicksShow.append {past xs ys : List Call} (hx : TicksShow past xs)
    (hy : TicksShow (past ++ xs) ys) : TicksShow past (xs ++ ys) := by
  intro before after he
  -- the tick is in the second list, or in the first, where `more` is what the first has left
  rcases List.append_eq_append_iff.mp he with ⟨more, rfl, hm⟩ | ⟨more, rfl, hm⟩
  · rw [← List.append_assoc]
    exact hy more after hm
  · cases more with
    | nil => simpa using hy [] after hm.symm
    | cons call more =>
      cases hm
      exact hx before more rfl

theorem tick_not_mem_showEntries (past : List Call) (entries : List Resource) :
    .tick ∉ showEntries past entries := by
  induction entries generalizing past with
  | nil => exact List.not_mem_nil
  | cons r rest ih =>
    unfold showEntries
    rw [List.mem_append, not_or]
    refine ⟨?_, ih _⟩
    unfold showEntry
    split
    · exact List.not_mem_nil
    · split <;> split <;> simp

end Recording

open Recording

namespace Board.Reflects

variable {board : Board} {past : List Call}

theorem calls_observeResource (h : Reflects board past) (r : Resource) :
    (FleetControl.observeResource board r).2 = showEntry past r := by
  have stage := board.stage_observe r.key r.displayName (r.summaryLine r.status) r.key
  rw [if_pos rfl] at stage
  unfold FleetControl.observeResource showEntry
  -- a failed entry is resolved at the stage that showing it led to
  simp only [h.resolved_iff, h.created_iff]
  by_cases hf : r.status = .failed
  · simp only [if_pos hf, calls_resolve, stage, calls_observe]
    cases board.stage r.key with
    | none => rfl
    | some resolved => cases resolved <;> rfl
  · simp only [if_neg hf, calls_observe]
    cases board.stage r.key with
    | none => rfl
    | some resolved => cases resolved <;> rfl

theorem observeResource (h : Reflects board past) (r : Resource) :
    Reflects (FleetControl.observeResource board r).1 (past ++ showEntry past r) := by
  have shown := h.observe r.key r.displayName (r.summaryLine r.status)
  rw [← h.calls_observeResource r]
  unfold FleetControl.observeResource
  by_cases hf : r.status = .failed
  · simp only [if_pos hf, ← List.append_assoc]
    exact shown.resolve r.key .error (r.summaryLine r.status)
  · simp only [if_neg hf]
    exact shown

/-- A board shows the entries of a fetch with the calls that they must cause. -/
theorem observeAll (h : Reflects board past) (entries : List Resource) :
    (FleetControl.observeAll board entries).2 = showEntries past entries ∧
      Reflects (FleetControl.observeAll board entries).1 (past ++ showEntries past entries) := by
  induction entries generalizing board past with
  | nil =>
    unfold FleetControl.observeAll showEntries
    rw [List.append_nil]
    exact ⟨rfl, h⟩
  | cons r rest ih =>
    obtain ⟨calls, later⟩ := ih (h.observeResource r)
    unfold FleetControl.observeAll showEntries
    dsimp only
    rw [h.calls_observeResource, calls, ← List.append_assoc]
    exact ⟨rfl, later⟩

end Board.Reflects

/-! ## The keys of a board -/

theorem keys_observeResource (board : Board) (r : Resource) :
    (observeResource board r).1.keys =
      if r.key ∈ board.keys then board.keys else board.keys ++ [r.key] := by
  unfold observeResource
  dsimp only
  split
  · rw [Board.keys_resolve, Board.keys_observe]
  · rw [Board.keys_observe]

theorem keys_observeAll {board : Board} {earlier : List Resource} (entries : List Resource)
    (h : board.keys = firstKeys earlier) :
    (observeAll board entries).1.keys = firstKeys (earlier ++ entries) := by
  induction entries generalizing board earlier with
  | nil => rw [List.append_nil]; exact h
  | cons r rest ih =>
    have first : (observeResource board r).1.keys = firstKeys (earlier ++ [r]) := by
      rw [keys_observeResource, firstKeys_snoc, h]
    unfold observeAll
    dsimp only
    rw [ih first, List.append_assoc, List.singleton_append]

theorem keys_resolveAll (board : Board) (items : List (String × Outcome × String)) :
    (board.resolveAll items).1.keys = board.keys := by
  induction items generalizing board with
  | nil => rfl
  | cons item rest ih =>
    obtain ⟨key, outcome, text⟩ := item
    unfold Board.resolveAll
    dsimp only
    rw [ih, Board.keys_resolve]

/-! ## One reply -/

theorem resolveAll_resolveAll (board : Board) (xs ys : List (String × Outcome × String)) :
    ∃ items, ((board.resolveAll xs).1.resolveAll ys).1 = (board.resolveAll items).1 ∧
      (board.resolveAll xs).2 ++ ((board.resolveAll xs).1.resolveAll ys).2 =
        (board.resolveAll items).2 := by
  refine ⟨xs ++ ys, ?_⟩
  induction xs generalizing board with
  | nil => exact ⟨rfl, rfl⟩
  | cons item rest ih =>
    obtain ⟨key, outcome, text⟩ := item
    obtain ⟨boards, calls⟩ := ih (board.resolve key outcome text).1
    simp only [List.cons_append, Board.resolveAll, List.append_assoc]
    exact ⟨boards, congrArg _ calls⟩

theorem isResolve_of_mem_resolveAll {board : Board} {items : List (String × Outcome × String)}
    {call : Call} (h : call ∈ (board.resolveAll items).2) :
    ∃ key outcome text, call = .resolve key outcome text := by
  induction items generalizing board with
  | nil => exact absurd h List.not_mem_nil
  | cons item rest ih =>
    obtain ⟨key, outcome, text⟩ := item
    unfold Board.resolveAll at h
    rcases List.mem_append.mp h with h | h
    · rw [Board.calls_resolve] at h
      split at h
      · exact ⟨key, outcome, text, List.mem_singleton.mp h⟩
      · exact absurd h List.not_mem_nil
    · exact ih h

theorem shows_of_mem_observe {board : Board} {key name text : String} {call : Call}
    (h : call ∈ (board.observe key name text).2) : call.shows := by
  rw [Board.calls_observe] at h
  split at h
  · rw [List.mem_singleton.mp h]
    rfl
  · rw [List.mem_singleton.mp h]
    rfl
  · exact absurd h List.not_mem_nil

/-- Entries are shown, and resolved only if they failed. -/
theorem shows_of_mem_observeAll {board : Board} {entries : List Resource} {call : Call}
    (h : call ∈ (observeAll board entries).2) :
    call.shows ∨ ∃ r ∈ entries, r.status = .failed ∧
      call = .resolve r.key .error (r.summaryLine r.status) := by
  induction entries generalizing board with
  | nil => exact absurd h List.not_mem_nil
  | cons r rest ih =>
    unfold observeAll observeResource at h
    rcases List.mem_append.mp h with own | later
    · by_cases hf : r.status = .failed
      · simp only [if_pos hf] at own
        rcases List.mem_append.mp own with shown | resolved
        · exact .inl (shows_of_mem_observe shown)
        · rw [Board.calls_resolve] at resolved
          split at resolved
          · exact .inr ⟨r, List.mem_cons_self, hf, List.mem_singleton.mp resolved⟩
          · exact absurd resolved List.not_mem_nil
      · simp only [if_neg hf] at own
        exact .inl (shows_of_mem_observe own)
    · rcases ih later with shown | ⟨other, ho, hf, resolved⟩
      · exact .inl shown
      · exact .inr ⟨other, List.mem_cons_of_mem _ ho, hf, resolved⟩

/-- A reply that passes is shown or noted: it resolves nothing, and it does not tick. -/
theorem Reply.shows_of_mem_calls {reply : Reply} (h : reply.passes) {board : Board} {call : Call}
    (made : call ∈ reply.calls board) : call.shows ∨ ∃ text, call = .note text := by
  have failed := Reply.failedKeys_entries h
  unfold Reply.calls at made
  unfold Reply.entries at failed
  cases hr : reply.result with
  | error error =>
    rw [hr] at made
    exact .inr ⟨_, List.mem_singleton.mp made⟩
  | ok fetch =>
    rw [hr] at made failed
    rcases shows_of_mem_observeAll made with shown | ⟨r, hm, hf, -⟩
    · exact .inl shown
    · have kept : r ∈ fetch.shown.filter fun r => r.status == .failed :=
        List.mem_filter.mpr ⟨hm, by simpa using hf⟩
      rw [List.map_eq_nil_iff.mp failed] at kept
      exact absurd kept List.not_mem_nil

theorem ofFetch_resolves (board : Board) (polls : UInt32) (fetch : Fetch) :
    ∃ items,
      (Applied.ofFetch board polls fetch).board =
          ((observeAll board fetch.shown).1.resolveAll items).1 ∧
        (Applied.ofFetch board polls fetch).calls =
          (observeAll board fetch.shown).2 ++
            ((observeAll board fetch.shown).1.resolveAll items).2 := by
  unfold Applied.ofFetch Fetch.shown
  cases fetch.workflow with
  | none => exact ⟨_, rfl, rfl⟩
  | some record =>
    dsimp only
    cases Decision.evaluate record.signal (statuses fetch.resources) with
    | «continue» => exact ⟨[], rfl, rfl⟩
    | resourceFailed key => exact ⟨_, rfl, rfl⟩
    | terminal verdict forced =>
      obtain ⟨items, hb, hc⟩ := resolveAll_resolveAll (observeAll board fetch.resources).1 _ _
      exact ⟨items, hb, congrArg _ hc⟩

namespace Run

/-- A board that reflects the calls made so far still does after a reply. The calls of the reply
are those that its entries must cause, and others that show nothing. -/
theorem reflects_applyResult {board : Board} {past : List Call} {earlier : List Resource}
    (h : board.Reflects past) (keys : board.keys = firstKeys earlier) (polls : UInt32) (reply : Reply) :
    ∃ closing, (applyResult board polls reply.result).calls =
        showEntries past reply.entries ++ closing ∧
      (∀ call ∈ closing, call.shows = false ∧ call ≠ .tick) ∧
      (applyResult board polls reply.result).board.Reflects
        (past ++ (showEntries past reply.entries ++ closing)) ∧
      (applyResult board polls reply.result).board.keys = firstKeys (earlier ++ reply.entries) := by
  unfold applyResult Reply.entries
  cases reply.result with
  | error error =>
    refine ⟨[.note (retryNote error)], rfl, ?_, ?_, ?_⟩
    · intro call hc
      rw [List.mem_singleton.mp hc]
      exact ⟨rfl, nofun⟩
    · exact h.silent fun call hc => by rw [List.mem_singleton.mp hc]; rfl
    · rw [List.append_nil]
      exact keys
  | ok fetch =>
    obtain ⟨items, hb, hc⟩ := ofFetch_resolves board polls fetch
    obtain ⟨calls, shown⟩ := h.observeAll fetch.shown
    refine ⟨_, hc.trans (congrArg (· ++ _) calls), ?_, ?_, ?_⟩
    · intro call hm
      obtain ⟨key, outcome, text, rfl⟩ := isResolve_of_mem_resolveAll hm
      exact ⟨rfl, nofun⟩
    · dsimp only
      rw [hb, ← List.append_assoc]
      exact shown.resolveAll items
    · dsimp only
      rw [hb, keys_resolveAll, keys_observeAll _ keys]

/-- A trace accounts for the replies that were applied: each is a fetch, then the calls that its
entries must cause after the calls made so far, then calls that show nothing. The last fetch may
have no reply. -/
inductive Accounted : List Call → List Reply → List Moment → Prop where
  | stopped {past : List Call} : Accounted past [] []
  | pending {past : List Call} : Accounted past [] [.fetch]
  | applied {past closing : List Call} {reply : Reply} {rest : List Reply} {trace : List Moment}
      (quiet : ∀ call ∈ closing, call.shows = false)
      (later : Accounted (past ++ (showEntries past reply.entries ++ closing)) rest trace) :
      Accounted past (reply :: rest)
        (.fetch :: (showEntries past reply.entries ++ closing).map .call ++ trace)

/-! ## Whole runs -/

theorem ticksShow_showEntries (past : List Call) (entries : List Resource) {closing : List Call}
    (quiet : ∀ call ∈ closing, call.shows = false ∧ call ≠ .tick) :
    TicksShow past (showEntries past entries ++ closing) := by
  apply ticksShow_of_not_mem
  rw [List.mem_append, not_or]
  exact ⟨tick_not_mem_showEntries past entries, fun h => (quiet _ h).2 rfl⟩

/-- What holds of the calls made so far holds of the rest of a run. -/
theorem Traced.display {board : Board} {polls : UInt32} {applied : List Reply} {trace : List Moment}
    {conclusion : Option Conclusion} (traced : Traced board polls applied trace conclusion)
    {past : List Call} {earlier : List Resource} (h : board.Reflects past)
    (keys : board.keys = firstKeys earlier) :
    Accounted past applied trace ∧ TicksShow past (callsOf trace) ∧
      ∃ final : Board, final.Reflects (past ++ callsOf trace) ∧
        final.keys = firstKeys (earlier ++ applied.flatMap Reply.entries) := by
  induction traced generalizing past earlier with
  | @stopped board polls =>
    exact ⟨.stopped, ticksShow_of_not_mem past List.not_mem_nil,
      board, by simpa [callsOf] using h, by simpa using keys⟩
  | @pending board polls =>
    exact ⟨.pending, ticksShow_of_not_mem past List.not_mem_nil,
      board, by simpa [callsOf] using h, by simpa using keys⟩
  | @decided board polls reply conclusion decided =>
    obtain ⟨closing, calls, quiet, reflects, keys⟩ :=
      reflects_applyResult h keys (polls + 1) reply
    rw [callsOf_fetch, callsOf_map, calls]
    refine ⟨?_, ticksShow_showEntries past _ quiet, _, reflects, by simpa using keys⟩
    simpa using Accounted.applied (fun call hc => (quiet call hc).1) .stopped
  | @passed board polls reply rest ticks trace conclusion passes still later ih =>
    obtain ⟨closing, calls, quiet, reflects, keys⟩ :=
      reflects_applyResult h keys (polls + 1) reply
    rw [applyResult_of_passes passes] at calls reflects keys
    dsimp only at calls reflects keys
    -- the ticks of the pause show nothing, and there are none on an empty board
    have ticking : ∀ call ∈ List.replicate ticks Call.tick, call.key? = none ∧ call.shows = false :=
      fun call hc => by rw [List.eq_of_mem_replicate hc]; exact ⟨rfl, rfl⟩
    have paused := reflects.silent fun call hc => (ticking call hc).1
    obtain ⟨accounted, shown, final, ends, names⟩ := ih paused keys
    have whole : callsOf (.fetch :: (reply.calls board).map .call ++
        List.replicate ticks (.call .tick) ++ trace) =
          showEntries past reply.entries ++ closing ++ List.replicate ticks .tick ++
            callsOf trace := by
      rw [← List.map_replicate, List.cons_append, List.cons_append, callsOf_fetch, callsOf_append,
        callsOf_append, callsOf_map, callsOf_map, calls]
    have pausing : TicksShow (past ++ (showEntries past reply.entries ++ closing))
        (List.replicate ticks .tick) := by
      cases hb : reply.boardAfter board with
      | nil =>
        rw [still hb]
        exact ticksShow_of_not_mem _ List.not_mem_nil
      | cons spinner others =>
        refine ticksShow_of_created _ ?_
        rw [← reflects.keys, hb]
        exact List.cons_ne_nil _ _
    refine ⟨?_, ?_, final, ?_, ?_⟩
    · rw [List.append_assoc] at accounted
      have block := Accounted.applied (fun call hc => (List.mem_append.mp hc).elim
        (fun h => (quiet call h).1) fun h => (ticking call h).2) (by simpa using accounted)
      rw [calls]
      simpa using block
    · rw [whole]
      exact ((ticksShow_showEntries past _ quiet).append pausing).append (by simpa using shown)
    · rw [whole]
      simpa using ends
    · simpa using names

/-- What every run does to its display, for any replies and any moment of cancellation; a fetch may
list a key several times.

The calls of each key are a create, then updates, then at most one resolve, and no call is for a
key that was not created. The created keys are distinct and in the order of first occurrence over
the entries of the applied fetches with a record. Each of these entries causes exactly one create or
update with its summary line, unless its key was resolved before, and nothing else causes one. A
tick comes after a create. -/
theorem ofReplies_display (cadence : Cadence) (clock : Nat) (cancel : Option Nat)
    (replies : List Reply) :
    let run := ofReplies cadence clock cancel replies
    ∃ applied, applied <+: replies ∧ Accounted [] applied run.trace ∧
      (∀ key, ∃ stage, Lifecycle key stage (ofKey key run.calls)) ∧
      (∀ call ∈ run.calls, ∀ key, call.key? = some key → key ∈ createdKeys run.calls) ∧
      (createdKeys run.calls).Nodup ∧
      createdKeys run.calls = firstKeys (applied.flatMap Reply.entries) ∧
      ∀ before after, run.calls = before ++ .tick :: after → createdKeys before ≠ [] := by
  intro run
  obtain ⟨applied, conclusion, first, traced, -⟩ := go_traced cadence clock ⟨0, 0, [], cancel⟩ replies
  obtain ⟨accounted, ticking, final, reflects, keys⟩ :=
    traced.display Board.Reflects.nil (Board.showing_nil [] ▸ Board.keys_showing [] [])
  have reflects : final.Reflects run.calls := reflects
  have names : createdKeys run.calls = firstKeys (applied.flatMap Reply.entries) :=
    reflects.keys.symm.trans keys
  refine ⟨applied, first, accounted, fun key => ⟨final.stage key, reflects.lives key⟩,
    fun call hc key hk => reflects.created_of_mem hc hk, ?_, names, ticking⟩
  rw [names]
  exact nodup_firstKeys _

end Run

end FleetControl
