import FleetControl.Proofs.Poll.Resolution
import FleetControl.Proofs.Poll.Uncancelled
import FleetControl.Proofs.Progress.Log

/-!
# The log of a run

For runs that are never cancelled and whose fetches list no key twice, on a display that draws
nothing in place.

1. `Run.told` lists the calls that replies lead to, read from the replies alone; `Traced.recorded`
   says that these are the calls of a run, ticks apart.
2. `Run.Logs` is what a log must hold of the replies that were applied: the notes of the failed
   fetches, and for each key its texts without repetitions and at most one resolution.
   `go_logged` says that every run leaves such a log.
3. Names and error texts without line ends leave lines without any: `unbroken_of_mem_log`.
-/

namespace FleetControl

open Recording

/-- The texts that entries show for a key, each under its own status. -/
def linesOf (key : String) (entries : List Resource) : List String :=
  (entries.filter (·.key == key)).map fun r => r.summaryLine r.status

/-- Whether a run returned anything other than a cancellation. -/
def Ending.Returns (ending : Ending) : Prop :=
  ∃ conclusion, ending = .concluded conclusion ∧ conclusion ≠ .error .cancelled

namespace Reply

/-- The note of a reply, if its fetch failed. -/
def note? (reply : Reply) : Option String :=
  match reply.result with
  | .ok _ => none
  | .error error => some (Run.retryNote error)

/-- The calls that a reply leads to after the entries shown so far. -/
def callsAfter (reply : Reply) (earlier : List Resource) : List Call :=
  match reply.result with
  | .ok fetch => showCalls earlier fetch.shown ++ Applied.resolveCalls (fetch.closing earlier)
  | .error error => [.note (Run.retryNote error)]

/-- A reply leads to these calls on the board of a history. -/
theorem calls_applyResult {reply : Reply} (earlier : List Resource) (polls : UInt32)
    (distinct : reply.Distinct) :
    (Run.applyResult (.showing earlier []) polls reply.result).calls =
      reply.callsAfter earlier := by
  unfold callsAfter Run.applyResult
  cases hr : reply.result with
  | error error => rfl
  | ok fetch =>
    dsimp only
    rw [Applied.ofFetch_showing earlier polls fetch (distinct fetch hr)]

theorem calls_showing {reply : Reply} (earlier : List Resource) (passes : reply.passes)
    (distinct : reply.Distinct) : reply.calls (.showing earlier []) = reply.callsAfter earlier := by
  rw [← calls_applyResult earlier 0 distinct, Run.applyResult_of_passes passes]

end Reply

/-! ## What the calls of a reply show -/

theorem linesOf_append (key : String) (xs ys : List Resource) :
    linesOf key (xs ++ ys) = linesOf key xs ++ linesOf key ys := by
  unfold linesOf
  rw [List.filter_append, List.map_append]

theorem textsOf_showCalls (key : String) (earlier entries : List Resource) :
    textsOf key (showCalls earlier entries) = linesOf key entries := by
  induction entries generalizing earlier with
  | nil => rfl
  | cons r rest ih =>
    have own : textsOf key (entryCalls earlier r) = linesOf key [r] := by
      unfold entryCalls linesOf
      dsimp only
      by_cases same : r.key = key
      · split <;> split <;> simp [textsOf, same]
      · split <;> split <;> simp [textsOf, same]
    rw [showCalls, textsOf_append, own, ih, ← linesOf_append]
    rfl

theorem textsOf_resolveCalls (key : String) (items : List (String × Outcome × String)) :
    textsOf key (Applied.resolveCalls items) = [] := by
  unfold textsOf Applied.resolveCalls
  rw [List.filterMap_map, List.filterMap_eq_nil_iff]
  exact fun _ _ => rfl

theorem of_mem_showCalls {earlier entries : List Resource} {call : Call}
    (h : call ∈ showCalls earlier entries) :
    ∃ r ∈ entries, call.key? = some r.key ∧ call.text? = some (r.summaryLine r.status) := by
  induction entries generalizing earlier with
  | nil => cases h
  | cons r rest ih =>
    rcases List.mem_append.mp h with own | later
    · refine ⟨r, List.mem_cons_self, ?_⟩
      unfold entryCalls at own
      rcases List.mem_cons.mp own with rfl | own
      · split <;> exact ⟨rfl, rfl⟩
      · split at own
        · rw [List.mem_singleton.mp own]
          exact ⟨rfl, rfl⟩
        · cases own
    · obtain ⟨other, ho, shows⟩ := ih later
      exact ⟨other, List.mem_cons_of_mem _ ho, shows⟩

theorem of_mem_resolveCalls {items : List (String × Outcome × String)} {call : Call}
    (h : call ∈ Applied.resolveCalls items) :
    ∃ item ∈ items, call.key? = some item.1 ∧ call.text? = some item.2.2 := by
  obtain ⟨item, hi, rfl⟩ := List.mem_map.mp h
  exact ⟨item, hi, rfl, rfl⟩

namespace Reply

theorem textsOf_callsAfter (key : String) (reply : Reply) (earlier : List Resource) :
    textsOf key (reply.callsAfter earlier) = linesOf key reply.entries := by
  unfold callsAfter entries
  cases reply.result with
  | error error => rfl
  | ok fetch =>
    dsimp only
    rw [textsOf_append, textsOf_showCalls, textsOf_resolveCalls, List.append_nil]

theorem notes_eq_nil {calls : List Call} (keyed : ∀ call ∈ calls, call.key? ≠ none) :
    notes calls = [] := by
  unfold notes
  rw [List.filterMap_eq_nil_iff]
  intro call hc
  cases call with
  | note text => exact absurd rfl (keyed _ hc)
  | create | update | resolve | tick => rfl

theorem notes_callsAfter (reply : Reply) (earlier : List Resource) :
    notes (reply.callsAfter earlier) = reply.note?.toList := by
  unfold callsAfter note?
  cases reply.result with
  | error error => rfl
  | ok fetch =>
    apply notes_eq_nil
    intro call hc
    rcases List.mem_append.mp hc with shows | resolves
    · obtain ⟨r, -, key, -⟩ := of_mem_showCalls shows
      rw [key]
      exact Option.some_ne_none _
    · obtain ⟨item, -, key, -⟩ := of_mem_resolveCalls resolves
      rw [key]
      exact Option.some_ne_none _

/-- Where the text of a call comes from: an entry, a resolution or a failure. -/
theorem of_mem_callsAfter {reply : Reply} {earlier : List Resource} {call : Call}
    (h : call ∈ reply.callsAfter earlier) :
    ∃ text, call.text? = some text ∧
      ((∃ r ∈ reply.entries, text = r.summaryLine r.status) ∨
        (∃ fetch, reply.result = .ok fetch ∧ ∃ item ∈ fetch.closing earlier, text = item.2.2) ∨
        ∃ error, reply.result = .error error ∧ text = Run.retryNote error) := by
  unfold callsAfter at h
  unfold entries
  cases hr : reply.result with
  | error error =>
    rw [hr] at h
    rw [List.mem_singleton.mp h]
    exact ⟨_, rfl, .inr (.inr ⟨error, rfl, rfl⟩)⟩
  | ok fetch =>
    rw [hr] at h
    rcases List.mem_append.mp h with shows | resolves
    · obtain ⟨r, hm, -, text⟩ := of_mem_showCalls shows
      exact ⟨_, text, .inl ⟨r, hm, rfl⟩⟩
    · obtain ⟨item, hi, -, text⟩ := of_mem_resolveCalls resolves
      exact ⟨_, text, .inr (.inl ⟨fetch, rfl, item, hi, rfl⟩)⟩

end Reply

namespace Run

/-- The calls that replies lead to, one after the other. -/
def told (earlier : List Resource) : List Reply → List Call
  | [] => []
  | reply :: rest => reply.callsAfter earlier ++ told (earlier ++ reply.entries) rest

theorem recorded_callsAfter (reply : Reply) (earlier : List Resource) :
    Recording.recorded (reply.callsAfter earlier) = reply.callsAfter earlier := by
  unfold Recording.recorded
  rw [List.filter_eq_self]
  intro call hc
  obtain ⟨text, has_text, -⟩ := Reply.of_mem_callsAfter hc
  cases call with
  | tick => cases has_text
  | create | update | resolve | note => rfl

theorem textsOf_told (key : String) (earlier : List Resource) (replies : List Reply) :
    textsOf key (told earlier replies) = linesOf key (replies.flatMap Reply.entries) := by
  induction replies generalizing earlier with
  | nil => rfl
  | cons reply rest ih =>
    rw [told, textsOf_append, Reply.textsOf_callsAfter, ih, List.flatMap_cons, linesOf_append]

theorem notes_told (earlier : List Resource) (replies : List Reply) :
    notes (told earlier replies) = replies.filterMap Reply.note? := by
  induction replies generalizing earlier with
  | nil => rfl
  | cons reply rest ih =>
    rw [told, notes_append, Reply.notes_callsAfter, ih, List.filterMap_cons]
    cases reply.note? <;> rfl

theorem Traced.recorded {board : Board} {polls : UInt32} {applied : List Reply}
    {trace : List Moment} {conclusion : Option Conclusion}
    (traced : Traced board polls applied trace conclusion) {earlier : List Resource}
    (shown : board = .showing earlier []) (distinct : ∀ reply ∈ applied, reply.Distinct) :
    Recording.recorded (callsOf trace) = told earlier applied := by
  induction traced generalizing earlier with
  | stopped => rfl
  | pending => rfl
  | @decided board polls reply conclusion decided =>
    rw [callsOf_fetch, callsOf_map, shown,
      Reply.calls_applyResult earlier _ (distinct reply List.mem_cons_self), recorded_callsAfter]
    exact (List.append_nil _).symm
  | @passed board polls reply rest ticks trace conclusion passes still later ih =>
    rw [List.forall_mem_cons] at distinct
    have next : reply.boardAfter board = .showing (earlier ++ reply.entries) [] := by
      rw [shown]
      exact Reply.boardAfter_showing earlier passes distinct.1
    -- of the pause nothing is left, of the fetch the calls that its reply leads to
    have silent : Recording.recorded (List.replicate ticks Call.tick) = [] := by
      unfold Recording.recorded
      rw [List.filter_eq_nil_iff]
      intro call hc
      rw [List.eq_of_mem_replicate hc]
      decide
    have split (xs ys : List Call) :
        Recording.recorded (xs ++ ys) = Recording.recorded xs ++ Recording.recorded ys :=
      List.filter_append ..
    rw [← List.map_replicate, List.cons_append, List.cons_append, callsOf_fetch, callsOf_append,
      callsOf_append, callsOf_map, callsOf_map, split, split, silent, ih next distinct.2, shown,
      Reply.calls_showing earlier passes distinct.1, recorded_callsAfter, List.append_nil]
    rfl

/-- A run that is never cancelled applies the replies of the fetches that it started, as far as
there are replies. -/
theorem go_applied (cadence : Cadence) (clock : Nat) (state : State) {replies : List Reply}
    (quiet : state.cancel = none) (uncancelled : ∀ reply ∈ replies, reply.cancels = false) :
    ∃ conclusion, Traced state.board state.polls
        (replies.take (go cadence clock state replies).fetches)
        (go cadence clock state replies).trace conclusion ∧
      (go cadence clock state replies).ending.Fits conclusion := by
  have awake := cancelledAt_of_quiet quiet
  induction replies generalizing state with
  | nil =>
    refine ⟨none, ?_, .inl rfl⟩
    rw [go, awake, List.take_nil]
    exact .pending
  | cons reply rest ih =>
    rw [List.forall_mem_cons] at uncancelled
    obtain ⟨run, turned, whole⟩ | ⟨passes, -, still, whole⟩ :=
      go_turn cadence clock reply rest (awake _)
    · rw [whole, turned.fetches_stop]
      cases turned with
      | abandoned moment token early => cases quiet.symm.trans token
      | concluded conclusion awake decided => exact ⟨some conclusion, .decided decided, rfl⟩
      | clockEnded awake passes late =>
        refine ⟨none, ?_, .inr rfl⟩
        simpa using Traced.stopped.afterPause passes (n := 0) fun _ => rfl
      | returned awake passes inTime cancels =>
        cases cancels.symm.trans uncancelled.1
      | interrupted passes inTime still moment token later within =>
        cases quiet.symm.trans token
    · obtain ⟨n, none_shown, ht⟩ :=
        exists_ticks cadence (reply.boardAfter state.board) cadence.interval
      obtain ⟨conclusion, later, fits⟩ := ih (state.next cadence reply) quiet uncancelled.2
        (cancelledAt_of_quiet quiet)
      refine ⟨conclusion, ?_, whole ▸ fits⟩
      have fetches := fetches_after_turn cadence
        (applyResult state.board (state.polls + 1) reply.result).calls
        (reply.boardAfter state.board) cadence.interval
        (go cadence clock (state.next cadence reply) rest)
      rw [whole]
      unfold shownBy
      rw [fetches, List.take_succ_cons, ht]
      exact later.afterPause passes none_shown

theorem Traced.unresolved {board : Board} {polls : UInt32} {applied : List Reply}
    {trace : List Moment} {conclusion : Option Conclusion}
    (traced : Traced board polls applied trace conclusion) (undecided : conclusion = none)
    {earlier : List Resource} (shown : board = .showing earlier [])
    (distinct : ∀ reply ∈ applied, reply.Distinct) : finals (callsOf trace) = [] := by
  induction traced generalizing earlier with
  | stopped => rfl
  | pending => rfl
  | decided => cases undecided
  | @passed board polls reply rest ticks trace conclusion passes still later ih =>
    rw [List.forall_mem_cons] at distinct
    have next : reply.boardAfter board = .showing (earlier ++ reply.entries) [] := by
      rw [shown]
      exact Reply.boardAfter_showing earlier passes distinct.1
    rw [← List.map_replicate, List.cons_append, List.cons_append, callsOf_fetch, callsOf_append,
      callsOf_append, callsOf_map, callsOf_map, finals_append, finals_append, shown,
      finals_of_passes earlier passes distinct.1, finals_ticks, ih undecided next distinct.2]
    rfl

theorem Traced.resolved {polls : UInt32} {applied : List Reply} {trace : List Moment}
    {conclusion : Conclusion}
    (traced : Traced (.showing [] []) polls applied trace (some conclusion))
    (distinct : ∀ reply ∈ applied, reply.Distinct) :
    conclusion ≠ .error .cancelled ∧
      (resolvedKeys (callsOf trace)).Perm (firstKeys (applied.flatMap Reply.entries)) := by
  obtain ⟨first, last, fetch, before, calls, rfl, hr, decides, rfl, silent, own, rfl⟩ :=
    traced.resolves rfl distinct
  constructor
  · unfold Fetch.conclusion
    split
    · nofun
    · split
      · nofun
      · split <;> nofun
  · have entries : (first ++ [last]).flatMap Reply.entries =
        first.flatMap Reply.entries ++ fetch.shown := by
      rw [List.flatMap_append, List.flatMap_singleton]
      unfold Reply.entries
      rw [hr]
    rw [← map_finals, callsOf_append, callsOf_fetch, callsOf_map, finals_append, silent, own,
      entries]
    exact Fetch.perm_finals _ (distinct last (by simp) fetch hr) decides

/-- What a run resolved: all that it showed if it returned, else nothing. -/
theorem Traced.mem_resolvedKeys {applied : List Reply} {trace : List Moment}
    {conclusion : Option Conclusion} {ending : Ending}
    (traced : Traced [] 0 applied trace conclusion) (fits : ending.Fits conclusion)
    (distinct : ∀ reply ∈ applied, reply.Distinct) (key : String) :
    key ∈ resolvedKeys (callsOf trace) ↔
      ending.Returns ∧ key ∈ firstKeys (applied.flatMap Reply.entries) := by
  cases conclusion with
  | none =>
    rw [← map_finals, traced.unresolved rfl (Board.showing_nil []).symm distinct]
    refine iff_of_false List.not_mem_nil ?_
    rintro ⟨⟨conclusion, ends, returns⟩, -⟩
    rcases fits with fits | fits
    · cases ends.symm.trans fits
      exact returns rfl
    · cases ends.symm.trans fits
  | some conclusion =>
    obtain ⟨returns, resolved⟩ := Traced.resolved traced distinct
    rw [resolved.mem_iff]
    exact (and_iff_right ⟨conclusion, fits, returns⟩).symm

/-- What a log holds of the replies that were applied; `returns` says whether the run returned
anything other than a cancellation. -/
structure Logs (applied : List Reply) (returns : Prop) (log : List LogLine) : Prop where
  /-- Each failed fetch is noted once, in order. -/
  noted : log.filter (·.owner == none) = (applied.filterMap Reply.note?).map .noted
  /-- A run that returned ends the lines of every key that it showed by one resolution. -/
  settled : returns → ∀ key ∈ firstKeys (applied.flatMap Reply.entries), ∃ outcome text,
    log.filter (·.owner == some key) =
      changes key (linesOf key (applied.flatMap Reply.entries)) ++ [.settled key outcome text]
  /-- In other runs the lines of a key are its texts without repetitions. -/
  unsettled : ¬ returns → ∀ key, log.filter (·.owner == some key) =
    changes key (linesOf key (applied.flatMap Reply.entries))
  /-- No line is about a key that was not shown. -/
  unknown : ∀ key ∉ firstKeys (applied.flatMap Reply.entries),
    log.filter (·.owner == some key) = []

/-- Every run that is never cancelled leaves such a log. -/
theorem go_logged (cadence : Cadence) (clock : Nat) {replies : List Reply}
    (uncancelled : ∀ reply ∈ replies, reply.cancels = false)
    (distinct : ∀ reply ∈ replies, reply.Distinct) :
    let run := go cadence clock ⟨0, 0, [], none⟩ replies
    Recording.recorded run.calls = told [] (replies.take run.fetches) ∧
      Logs (replies.take run.fetches) run.ending.Returns (log run.calls) := by
  intro run
  obtain ⟨conclusion, traced, fits⟩ : ∃ conclusion,
      Traced [] 0 (replies.take run.fetches) run.trace conclusion ∧ run.ending.Fits conclusion :=
    go_applied cadence clock ⟨0, 0, [], none⟩ rfl uncancelled
  have distinct : ∀ reply ∈ replies.take run.fetches, reply.Distinct :=
    fun reply hr => distinct reply (List.mem_of_mem_take hr)
  obtain ⟨-, -, final, reflects, keys⟩ :=
    traced.display Board.Reflects.nil (Board.showing_nil [] ▸ Board.keys_showing [] [])
  have reflects : final.Reflects run.calls := reflects
  have keys : final.keys = firstKeys ((replies.take run.fetches).flatMap Reply.entries) := keys
  have calls : Recording.recorded run.calls = told [] (replies.take run.fetches) :=
    traced.recorded (Board.showing_nil []).symm distinct
  have resolved (key : String) := traced.mem_resolvedKeys fits distinct key
  -- how far the spinner of a key got decides whether its lines end by a resolution
  have lines (key : String) : ∃ last, (log run.calls).filter (·.owner == some key) =
      changes key (linesOf key ((replies.take run.fetches).flatMap Reply.entries)) ++ last ∧
      (key ∈ resolvedKeys run.calls → ∃ outcome text, last = [.settled key outcome text]) ∧
      (key ∉ resolvedKeys run.calls → last = []) := by
    rw [log_ofKey, ← textsOf_told key [], ← calls, textsOf_recorded, ← textsOf_ofKey,
      reflects.resolved_iff]
    exact (reflects.lives key).log_eq
  refine ⟨calls, ?_, ?_, ?_, ?_⟩
  · rw [log_notes, ← notes_recorded, calls, notes_told]
  · intro returns key known
    obtain ⟨last, own, settled, -⟩ := lines key
    obtain ⟨outcome, text, rfl⟩ := settled ((resolved key).mpr ⟨returns, known⟩)
    exact ⟨outcome, text, own⟩
  · intro still key
    obtain ⟨last, own, -, unsettled⟩ := lines key
    rw [own, unsettled fun settled => still ((resolved key).mp settled).1, List.append_nil]
  · intro key absent
    have unseen : final.stage key = none := Board.stage_eq_none.mpr (keys ▸ absent)
    have lives := reflects.lives key
    rw [unseen] at lives
    rw [log_ofKey]
    generalize ofKey key run.calls = own at lives
    cases lives
    rfl

end Run

/-! ## Texts without line ends -/

/-- Whether the shown names of a fetch, or the text of its error, have no line end. -/
def Reply.Unbroken (reply : Reply) : Prop :=
  match reply.result with
  | .ok fetch => ∀ r ∈ fetch.resources, Text.Unbroken r.displayName
  | .error error => Text.Unbroken error.message

namespace Text

instance : (reply : Reply) → Decidable reply.Unbroken
  | ⟨_, .ok fetch, _⟩ =>
    inferInstanceAs (Decidable (∀ r ∈ fetch.resources, Unbroken r.displayName))
  | ⟨_, .error error, _⟩ => inferInstanceAs (Decidable (Unbroken error.message))

end Text

open Text

theorem ResourceStatus.unbroken_text (status : ResourceStatus) : Unbroken status.text := by
  cases status <;> decide

theorem Step.unbroken_text (step : Step) : Unbroken step.text := by
  cases step <;> decide

theorem StepStatus.unbroken_icon (status : StepStatus) : Unbroken status.icon := by
  cases status <;> decide

/-- Statuses, steps and glyphs have no line end, so a line has one only in its name. -/
theorem Resource.unbroken_summaryLine {r : Resource} (name : Unbroken r.displayName)
    (status : ResourceStatus) : Unbroken (r.summaryLine status) := by
  have head : Unbroken (r.displayName ++ ": " ++ status.text) :=
    (name.append (by decide)).append status.unbroken_text
  unfold summaryLine
  dsimp only
  split
  · exact head
  · refine ((head.append (by decide)).append (.join (by decide) ?_)).append (by decide)
    intro part hp
    obtain ⟨⟨step, cls⟩, -, rfl⟩ := List.mem_map.mp hp
    exact (step.unbroken_text.append (by decide)).append cls.unbroken_icon

theorem exists_lastName {entries : List Resource} {key : String} (known : key ∈ firstKeys entries) :
    ∃ r ∈ entries, lastName entries key = r.displayName := by
  unfold lastName
  cases found : entries.reverse.find? fun r => r.key == key with
  | some r => exact ⟨r, List.mem_reverse.mp (List.mem_of_find?_eq_some found), rfl⟩
  | none =>
    obtain ⟨r, hr, same⟩ := mem_firstKeys.mp known
    exact absurd same (by simpa using List.find?_eq_none.mp found r (List.mem_reverse.mpr hr))

/-- What a fetch resolves is worded by names of entries. -/
theorem Fetch.unbroken_closing {fetch : Fetch} {earlier : List Resource}
    (names : ∀ r ∈ earlier ++ fetch.resources, Unbroken r.displayName)
    {item : String × Outcome × String} (h : item ∈ fetch.closing earlier) : Unbroken item.2.2 := by
  have named {entries : List Resource} (part : entries ⊆ earlier ++ fetch.resources) {key : String}
      (known : key ∈ firstKeys entries) : Unbroken (lastName entries key) := by
    obtain ⟨r, hr, same⟩ := exists_lastName known
    rw [same]
    exact names r (part hr)
  have before : earlier ⊆ earlier ++ fetch.resources := List.subset_append_left ..
  unfold closing at h
  split at h
  · obtain ⟨key, known, rfl⟩ := List.mem_map.mp h
    exact (named before known).append (by decide)
  · dsimp only at h
    split at h
    · obtain ⟨key, known, rfl⟩ := List.mem_map.mp h
      exact (named (List.Subset.refl _) (List.mem_of_mem_filter known)).append (by decide)
    · split at h
      · rcases List.mem_append.mp h with h | h
        · obtain ⟨r, hr, rfl⟩ := List.mem_map.mp h
          exact r.unbroken_summaryLine (names r (List.mem_append_right _ hr)) _
        · obtain ⟨key, known, rfl⟩ := List.mem_map.mp h
          exact ((named before (mem_absent.mp known).1).append (by decide)).append
            (ResourceStatus.unbroken_text _)
      · exact absurd h List.not_mem_nil

namespace Reply

theorem Unbroken.entries {reply : Reply} (unbroken : reply.Unbroken) :
    ∀ r ∈ reply.entries, Text.Unbroken r.displayName := by
  unfold Reply.Unbroken at unbroken
  unfold Reply.entries Fetch.shown
  intro r hr
  split at hr
  · next fetch brings =>
    rw [brings] at unbroken
    split at hr
    · exact absurd hr List.not_mem_nil
    · exact unbroken r hr
  · exact absurd hr List.not_mem_nil

theorem Unbroken.callsAfter {reply : Reply} (unbroken : reply.Unbroken) {earlier : List Resource}
    (names : ∀ r ∈ earlier, Text.Unbroken r.displayName) {call : Call}
    (h : call ∈ reply.callsAfter earlier) :
    ∃ text, call.text? = some text ∧ Text.Unbroken text := by
  obtain ⟨text, has_text, ⟨r, hr, rfl⟩ | ⟨fetch, brings, item, hi, rfl⟩ | ⟨error, brings, rfl⟩⟩ :=
    of_mem_callsAfter h
  · exact ⟨_, has_text, r.unbroken_summaryLine (unbroken.entries r hr) _⟩
  · unfold Reply.Unbroken at unbroken
    rw [brings] at unbroken
    refine ⟨_, has_text, Fetch.unbroken_closing ?_ hi⟩
    exact fun r hr => (List.mem_append.mp hr).elim (names r) (unbroken r)
  · unfold Reply.Unbroken at unbroken
    rw [brings] at unbroken
    exact ⟨_, has_text, Unbroken.append (by decide) unbroken⟩

end Reply

namespace Run

theorem unbroken_of_mem_told {earlier : List Resource} {replies : List Reply}
    (names : ∀ r ∈ earlier, Unbroken r.displayName) (unbroken : ∀ reply ∈ replies, reply.Unbroken)
    {call : Call} (h : call ∈ told earlier replies) :
    ∃ text, call.text? = some text ∧ Unbroken text := by
  induction replies generalizing earlier with
  | nil => exact absurd h List.not_mem_nil
  | cons reply rest ih =>
    rw [List.forall_mem_cons] at unbroken
    rcases List.mem_append.mp h with own | later
    · exact unbroken.1.callsAfter names own
    · refine ih ?_ unbroken.2 later
      exact fun r hr => (List.mem_append.mp hr).elim (names r) (unbroken.1.entries r)

theorem unbroken_of_mem_log {calls : List Call} {replies : List Reply}
    (known : Recording.recorded calls = told [] replies)
    (unbroken : ∀ reply ∈ replies, reply.Unbroken) {line : LogLine} (h : line ∈ log calls) :
    Unbroken line.shown := by
  obtain ⟨mark, call, hc, has_text⟩ := of_mem_log h
  have told : call ∈ told [] replies := by
    rw [← known]
    refine List.mem_filter.mpr ⟨hc, ?_⟩
    cases call with
    | tick => cases has_text
    | create | update | resolve | note => rfl
  obtain ⟨text, same, whole⟩ := unbroken_of_mem_told
    (fun _ hr => absurd hr List.not_mem_nil) unbroken told
  cases has_text.symm.trans same
  have marked : ∀ mark ∈ marks, Unbroken mark := by decide
  exact ((marked _ mark).append (by decide)).append whole

end Run

end FleetControl
