import FleetControl.Proofs.Poll.Resolution
import FleetControl.Proofs.Poll.Uncancelled

/-!
# The order of resources

A fetch may list its resources in any order. The order decides in which order a run shows them, and
which of several failed resources its error names; nothing else depends on it.

1. `Fetch.Reorders` and `Reply.Reorders` relate what differs only in that order, `SameShown` the
   histories that follow from it.
2. `Reorders.perm_finals` and `Reorders.conclusion_alike` compare the two ends of a run on its last
   fetch.
3. `go_reordered` takes both runs turn by turn, and `ofReplies_reordered` is the comparison of
   whole runs.
-/

namespace FleetControl

open Recording

/-! ## Histories -/

/-- Two histories that show the same keys, each under the same name. -/
structure SameShown (entries others : List Resource) : Prop where
  keys : (firstKeys entries).Perm (firstKeys others)
  names : ∀ key, lastName entries key = lastName others key

namespace SameShown

variable {entries others more extra : List Resource}

theorem mem_iff (same : SameShown entries others) (key : String) :
    (∃ r ∈ entries, r.key = key) ↔ ∃ r ∈ others, r.key = key := by
  rw [← mem_firstKeys, ← mem_firstKeys, same.keys.mem_iff]

theorem append (same : SameShown entries others) (perm : more.Perm extra)
    (distinct : (more.map (·.key)).Nodup) : SameShown (entries ++ more) (others ++ extra) where
  keys := by
    rw [List.perm_ext_iff_of_nodup (nodup_firstKeys _) (nodup_firstKeys _)]
    intro key
    simp only [mem_firstKeys, List.mem_append, or_and_right, exists_or, same.mem_iff,
      perm.mem_iff]
  names := by
    intro key
    by_cases own : key ∈ more.map (·.key)
    · obtain ⟨r, hr, rfl⟩ := List.mem_map.mp own
      rw [lastName_append_of_mem entries distinct hr,
        lastName_append_of_mem others ((perm.map _).nodup distinct) (perm.mem_iff.mp hr)]
    · have other : key ∉ extra.map (·.key) := mt (perm.map _).mem_iff.mpr own
      rw [lastName_append_of_not_mem entries more own,
        lastName_append_of_not_mem others extra other, same.names]

end SameShown

/-! ## Fetches -/

/-- Two conclusions of one kind. Reports differ only in the order of their resources; a failed
resource that an error names is one of the fetch, and the same one if it is the only one. -/
inductive Conclusion.Alike (fetch : Fetch) : Conclusion → Conclusion → Prop where
  | reported {report other : Report} (status : other.workflowStatus = report.workflowStatus)
      (verdict : other.verdict = report.verdict) (polls : other.polls = report.polls)
      (resources : report.resources.Perm other.resources) : Alike fetch (.ok report) (.ok other)
  | workflowFailed (status : String) :
      Alike fetch (.error (.workflowFailed status)) (.error (.workflowFailed status))
  | resourceFailed {r s : Resource} (first : r ∈ fetch.resources) (failed : r.status = .failed)
      (second : s ∈ fetch.resources) (failed' : s.status = .failed)
      (only : (failedKeys fetch.resources).length = 1 → s = r) :
      Alike fetch (.error (.resourceFailed r.displayName)) (.error (.resourceFailed s.displayName))

namespace Fetch

/-- Two fetches that differ only in the order of their resources. -/
structure Reorders (fetch other : Fetch) : Prop where
  workflow : other.workflow = fetch.workflow
  resources : fetch.resources.Perm other.resources

namespace Reorders

variable {fetch other : Fetch} {earlier others : List Resource}

theorem perm_keys (h : fetch.Reorders other) : fetch.keys.Perm other.keys :=
  h.resources.map _

theorem perm_shown (h : fetch.Reorders other) : fetch.shown.Perm other.shown := by
  unfold shown
  rw [h.workflow]
  cases fetch.workflow with
  | none => exact List.Perm.refl []
  | some record => exact h.resources

theorem perm_failedKeys (h : fetch.Reorders other) :
    (failedKeys fetch.resources).Perm (failedKeys other.resources) :=
  (h.resources.filter _).map _

theorem failed?_eq_none_iff (h : fetch.Reorders other) :
    other.failed? = none ↔ fetch.failed? = none := by
  unfold failed?
  simp only [List.find?_eq_none, h.resources.mem_iff]

theorem isSome_failed? (h : fetch.Reorders other) :
    other.failed?.isSome = fetch.failed?.isSome := by
  rw [Bool.eq_iff_iff, ← not_iff_not]
  simp [h.failed?_eq_none_iff]

theorem decides (h : fetch.Reorders other) : other.decides = fetch.decides := by
  unfold Fetch.decides
  rw [h.workflow, h.isSome_failed?]

theorem perm_absent (h : fetch.Reorders other) (same : SameShown earlier others) :
    (fetch.absent earlier).Perm (other.absent others) := by
  have listed : ∀ key, key ∈ other.keys ↔ key ∈ fetch.keys := fun key => h.perm_keys.mem_iff.symm
  unfold absent
  simp only [listed]
  exact same.keys.filter _

/-- What a history names, it names alike in the other one. -/
theorem perm_map {α : Type} {keys keys' : List String} (perm : keys.Perm keys')
    (same : SameShown earlier others) (f : String → String → α) :
    (keys.map fun key => f key (lastName earlier key)).Perm
      (keys'.map fun key => f key (lastName others key)) := by
  simp only [same.names]
  exact perm.map _

theorem perm_closing (h : fetch.Reorders other) (same : SameShown earlier others)
    (distinct : fetch.keys.Nodup) : (fetch.closing earlier).Perm (other.closing others) := by
  unfold closing
  rw [h.workflow]
  cases fetch.workflow with
  | none => exact perm_map same.keys same fun key name => (key, Outcome.success, name ++ ": completed")
  | some record =>
    dsimp only
    rw [h.isSome_failed?]
    split
    · have all := same.append h.resources distinct
      have spared : ∀ key, key ∈ failedKeys other.resources ↔ key ∈ failedKeys fetch.resources :=
        fun key => h.perm_failedKeys.mem_iff.symm
      simp only [spared]
      exact perm_map (all.keys.filter _) all fun key name => (key, Outcome.error, name ++ ": stopped")
    · split
      · exact (h.resources.map _).append (perm_map (h.perm_absent same) same fun key name =>
          (key, outcomeOf (Decision.verdictOf record.signal).fallback,
            name ++ ": " ++ (Decision.verdictOf record.signal).fallback.text))
      · exact List.Perm.refl []

theorem perm_finals (h : fetch.Reorders other) (same : SameShown earlier others)
    (distinct : fetch.keys.Nodup) : (fetch.finals earlier).Perm (other.finals others) := by
  unfold finals failedLines
  exact ((h.perm_shown.filter _).map _).append (h.perm_closing same distinct)

/-- A resource that failed is among the failed ones; if there is only one, it is this one. -/
theorem failed?_spec {r s : Resource} (h : fetch.Reorders other) (hr : fetch.failed? = some r)
    (hs : other.failed? = some s) :
    r.status = .failed ∧ s ∈ fetch.resources ∧ s.status = .failed ∧
      ((failedKeys fetch.resources).length = 1 → s = r) := by
  have first : r.status = .failed := by simpa using List.find?_some hr
  have second : s.status = .failed := by simpa using List.find?_some hs
  have mem := h.resources.mem_iff.mpr (List.mem_of_find?_eq_some hs)
  refine ⟨first, mem, second, fun only => ?_⟩
  unfold failedKeys at only
  rw [List.length_map, List.length_eq_one_iff] at only
  obtain ⟨one, only⟩ := only
  have own : ∀ t ∈ fetch.resources, t.status = .failed → t = one := by
    intro t ht failed
    rw [← List.mem_singleton, ← only]
    exact List.mem_filter.mpr ⟨ht, by simp [failed]⟩
  rw [own s mem second, own r (List.mem_of_find?_eq_some hr) first]

theorem conclusion_alike (h : fetch.Reorders other) (same : SameShown earlier others)
    (polls : UInt32) :
    Conclusion.Alike fetch (fetch.conclusion earlier polls) (other.conclusion others polls) := by
  unfold conclusion
  rw [h.workflow]
  cases fetch.workflow with
  | none =>
    exact .reported rfl rfl rfl
      (perm_map same.keys same (ResourceReport.mk · · .completed))
  | some record =>
    dsimp only
    cases hf : fetch.failed? with
    | some r =>
      obtain ⟨s, hs⟩ := Option.isSome_iff_exists.mp (h.isSome_failed?.trans (by rw [hf]; rfl))
      obtain ⟨first, mem, second, only⟩ := h.failed?_spec hf hs
      rw [hs]
      exact .resourceFailed (List.mem_of_find?_eq_some hf) first mem second only
    | none =>
      rw [h.failed?_eq_none_iff.mpr hf]
      dsimp only
      split
      · exact .reported rfl rfl rfl ((h.resources.map _).append
          (perm_map (h.perm_absent same) same (ResourceReport.mk · · .completed)))
      · exact .workflowFailed record.status

end Reorders

end Fetch

/-! ## Replies -/

/-- Two replies that differ only in the order in which their fetches list their resources. -/
inductive Reply.Reorders : Reply → Reply → Prop where
  | failed (delay : Nat) (error : WorkflowError) (cancels : Bool) :
      Reorders ⟨delay, .error error, cancels⟩ ⟨delay, .error error, cancels⟩
  | fetched (delay : Nat) {fetch other : Fetch} (cancels : Bool) (reorders : fetch.Reorders other) :
      Reorders ⟨delay, .ok fetch, cancels⟩ ⟨delay, .ok other, cancels⟩

namespace Reply.Reorders

variable {reply other : Reply}

theorem delay_eq (h : reply.Reorders other) : other.delay = reply.delay := by
  cases h <;> rfl

theorem cancels_eq (h : reply.Reorders other) : other.cancels = reply.cancels := by
  cases h <;> rfl

theorem passes_eq (h : reply.Reorders other) : other.passes = reply.passes := by
  cases h with
  | failed delay error cancels => rfl
  | fetched delay cancels reorders => exact congrArg Bool.not reorders.decides

theorem distinct (h : reply.Reorders other) (own : reply.Distinct) : other.Distinct := by
  cases h with
  | failed delay error cancels => nofun
  | @fetched delay fetch other cancels reorders =>
    rintro _ ⟨⟩
    exact reorders.perm_keys.nodup (own fetch rfl)

theorem perm_entries (h : reply.Reorders other) : reply.entries.Perm other.entries := by
  cases h with
  | failed delay error cancels => exact List.Perm.refl []
  | fetched delay cancels reorders => exact reorders.perm_shown

end Reply.Reorders

/-! ## Created keys -/

theorem createdKeys_showCalls (earlier entries : List Resource) :
    firstKeys earlier ++ createdKeys (showCalls earlier entries) =
      firstKeys (earlier ++ entries) := by
  induction entries generalizing earlier with
  | nil => rw [showCalls, List.append_nil]; exact List.append_nil _
  | cons r rest ih =>
    have own : firstKeys earlier ++ createdKeys (entryCalls earlier r) =
        firstKeys (earlier ++ [r]) := by
      rw [firstKeys_snoc]
      unfold entryCalls
      by_cases known : r.key ∈ firstKeys earlier <;> by_cases failed : r.status = .failed <;>
        simp [createdKeys, known, failed]
    rw [showCalls, createdKeys_append, ← List.append_assoc, own, ih, List.append_assoc,
      List.singleton_append]

theorem createdKeys_resolveCalls (items : List (String × Outcome × String)) :
    createdKeys (Applied.resolveCalls items) = [] := by
  unfold createdKeys Applied.resolveCalls
  rw [List.filterMap_map, List.filterMap_eq_nil_iff]
  intro item _
  rfl

theorem SameShown.perm_created {entries others more extra : List Resource} {keys keys' : List String}
    (same : SameShown entries others) (all : SameShown (entries ++ more) (others ++ extra))
    (own : firstKeys entries ++ keys = firstKeys (entries ++ more))
    (own' : firstKeys others ++ keys' = firstKeys (others ++ extra)) : keys.Perm keys' := by
  have whole := all.keys
  rw [← own, ← own'] at whole
  exact (List.perm_append_left_iff _).mp ((same.keys.symm.append_right keys).trans whole)

namespace Run

/-! ## Two runs turn by turn -/

/-- Two states whose boards follow from alike histories, in runs that nothing cancels. -/
structure State.Alike (state other : State) : Prop where
  time : other.time = state.time
  polls : other.polls = state.polls
  quiet : state.cancel = none
  quiet' : other.cancel = none
  board : ∃ entries others, state.board = .showing entries [] ∧
    other.board = .showing others [] ∧ SameShown entries others

/-- The last of the fetches that a run made, if it was answered with one. -/
def lastFetch? (replies : List Reply) (fetches : Nat) : Option Fetch :=
  replies[fetches - 1]?.bind Reply.brings

/-- Two endings of one kind. -/
inductive EndsAlike (last : Option Fetch) : Ending → Ending → Prop where
  | concluded {fetch : Fetch} {conclusion other : Conclusion} (brought : last = some fetch)
      (alike : Conclusion.Alike fetch conclusion other) :
      EndsAlike last (.concluded conclusion) (.concluded other)
  /-- The source had no more replies. -/
  | pending : EndsAlike last cancelled cancelled
  | clockEnded : EndsAlike last .clockEnded .clockEnded

/-- Two runs that stop at the same fetch and in the same way, after creating the same spinners and
resolving them alike. -/
structure Alike (replies : List Reply) (run other : Run) : Prop where
  fetches : other.fetches = run.fetches
  elapsed : other.elapsed = run.elapsed
  ending : EndsAlike (lastFetch? replies run.fetches) run.ending other.ending
  created : (createdKeys run.calls).Perm (createdKeys other.calls)
  resolved : (finals run.calls).Perm (finals other.calls)

section Turns

variable {cadence : Cadence} {clock : Nat} {state later : State} {reply other : Reply}

theorem State.Alike.next (same : state.Alike later) (reorders : reply.Reorders other)
    (passes : reply.passes) (distinct : reply.Distinct) :
    (state.next cadence reply).Alike (later.next cadence other) := by
  obtain ⟨entries, others, shown, shown', alike⟩ := same.board
  refine ⟨?_, congrArg (· + 1) same.polls, same.quiet, same.quiet', entries ++ reply.entries,
    others ++ other.entries, ?_, ?_, alike.append reorders.perm_entries (Reply.nodup_entries distinct)⟩
  · unfold State.next
    rw [same.time, reorders.delay_eq]
  · unfold State.next
    rw [shown, Reply.boardAfter_showing entries passes distinct]
  · unfold State.next
    rw [shown', Reply.boardAfter_showing others (reorders.passes_eq.trans passes)
      (reorders.distinct distinct)]

theorem after_turn {entries : List Resource} (shown : state.board = .showing entries [])
    (passes : reply.passes) (distinct : reply.Distinct) (n : Nat) (run : Run) :
    let whole := after (shownBy state reply ++ List.replicate n (.call .tick)) run
    whole.fetches = run.fetches + 1 ∧
      createdKeys whole.calls =
        createdKeys (reply.calls (.showing entries [])) ++ createdKeys run.calls ∧
      finals whole.calls = finals run.calls := by
  intro whole
  have calls : whole.calls = reply.calls state.board ++ List.replicate n .tick ++ run.calls := by
    change callsOf (_ ++ run.trace) = _ ++ callsOf run.trace
    rw [shownBy, applyResult_of_passes passes, callsOf_append, callsOf_append, callsOf_fetch,
      callsOf_map, ← List.map_replicate, callsOf_map]
  have silent : createdKeys (List.replicate n Call.tick) = [] := by
    unfold createdKeys
    rw [List.filterMap_replicate_of_none rfl]
  refine ⟨?_, ?_, ?_⟩
  · unfold fetches
    simp [whole, after, shownBy, List.filter_map, Function.comp_def]
  · rw [calls, createdKeys_append, createdKeys_append, silent, List.append_nil, shown]
  · rw [calls, finals_append, finals_append, finals_ticks, shown,
      finals_of_passes entries passes distinct]
    rfl

theorem created_of_passes (entries : List Resource) (distinct : reply.Distinct) :
    firstKeys entries ++ createdKeys (reply.calls (.showing entries [])) =
      firstKeys (entries ++ reply.entries) := by
  unfold Reply.calls Reply.entries
  cases hr : reply.result with
  | error error => rw [List.append_nil]; exact List.append_nil _
  | ok fetch =>
    dsimp only
    rw [observeAll_showing entries _ (Fetch.nodup_shown (distinct fetch hr))
      fun _ _ => List.not_mem_nil]
    exact createdKeys_showCalls entries fetch.shown

theorem go_decided {fetch : Fetch} {entries : List Resource} (delay : Nat) (cancels : Bool)
    (rest : List Reply) (quiet : state.cancel = none) (shown : state.board = .showing entries [])
    (distinct : fetch.keys.Nodup) (decides : fetch.decides) :
    go cadence clock state (⟨delay, .ok fetch, cancels⟩ :: rest) =
      ⟨.concluded (fetch.conclusion entries (state.polls + 1)), state.time + delay,
        .fetch :: (showCalls entries fetch.shown ++
          Applied.resolveCalls (fetch.closing entries)).map .call⟩ := by
  have applied := Applied.ofFetch_showing entries (state.polls + 1) fetch distinct
  rw [if_pos decides, ← shown] at applied
  have awake := cancelledAt_of_quiet quiet
  have turned : Turned cadence clock state ⟨delay, .ok fetch, cancels⟩ _ :=
    .concluded (fetch.conclusion entries (state.polls + 1)) (awake _) (by rw [applyResult, applied])
  rw [turned.go_stop (awake _), shownBy, applyResult, applied]

theorem alike_decided {fetch fetch' : Fetch} (delay : Nat) (cancels : Bool)
    (rest rest' : List Reply) (same : state.Alike later) (reorders : fetch.Reorders fetch')
    (distinct : fetch.keys.Nodup) (decides : fetch.decides) :
    Alike (⟨delay, .ok fetch, cancels⟩ :: rest)
      (go cadence clock state (⟨delay, .ok fetch, cancels⟩ :: rest))
      (go cadence clock later (⟨delay, .ok fetch', cancels⟩ :: rest')) := by
  obtain ⟨entries, others, shown, shown', alike⟩ := same.board
  have distinct' := reorders.perm_keys.nodup distinct
  have one (ending : Ending) (elapsed : Nat) (calls : List Call) :
      fetches ⟨ending, elapsed, .fetch :: calls.map .call⟩ = 1 := by
    unfold fetches
    simp [List.filter_map, Function.comp_def]
  have all (ending : Ending) (elapsed : Nat) (calls : List Call) :
      Run.calls ⟨ending, elapsed, .fetch :: calls.map .call⟩ = calls := by
    change callsOf (.fetch :: calls.map .call) = calls
    rw [callsOf_fetch, callsOf_map]
  rw [go_decided delay cancels rest same.quiet shown distinct decides,
    go_decided delay cancels rest' same.quiet' shown' distinct' (reorders.decides.trans decides),
    same.polls, same.time]
  refine ⟨?_, rfl, ?_, ?_, ?_⟩
  · rw [one, one]
  · rw [one]
    exact .concluded rfl (reorders.conclusion_alike alike _)
  · rw [all, all, createdKeys_append, createdKeys_append, createdKeys_resolveCalls,
      createdKeys_resolveCalls, List.append_nil, List.append_nil]
    exact alike.perm_created (alike.append reorders.perm_shown (Fetch.nodup_shown distinct))
      (createdKeys_showCalls entries _) (createdKeys_showCalls others _)
  · rw [all, all, finals_append, finals_append, finals_showCalls, finals_showCalls,
      finals_resolveCalls, finals_resolveCalls]
    exact reorders.perm_finals alike distinct

/-- Two runs that get past alike replies are alike if what comes after is. A run that does not come
to a further fetch was ended by the clock. -/
theorem Alike.passed {rest : List Reply} {run run' : Run} (alike : Alike rest run run')
    (started : 0 < run.fetches ∨ run.ending = .clockEnded) (same : state.Alike later)
    (reorders : reply.Reorders other) (passes : reply.passes) (distinct : reply.Distinct)
    (n n' : Nat) :
    Alike (reply :: rest) (after (shownBy state reply ++ List.replicate n (.call .tick)) run)
      (after (shownBy later other ++ List.replicate n' (.call .tick)) run') := by
  obtain ⟨entries, others, shown, shown', histories⟩ := same.board
  have distinct' := reorders.distinct distinct
  obtain ⟨fetches, created, resolved⟩ := after_turn shown passes distinct n run
  obtain ⟨fetches', created', resolved'⟩ :=
    after_turn shown' (reorders.passes_eq.trans passes) distinct' n' run'
  refine ⟨?_, alike.elapsed, ?_, ?_, ?_⟩
  · rw [fetches, fetches', alike.fetches]
  · have ending := alike.ending
    change EndsAlike _ run.ending run'.ending
    rcases started with started | ended
    · -- the last fetch of the rest is the last one of the whole
      have last : lastFetch? (reply :: rest) (run.fetches + 1) = lastFetch? rest run.fetches := by
        unfold lastFetch?
        rw [Nat.add_sub_cancel, List.getElem?_cons, if_neg (Nat.pos_iff_ne_zero.mp started)]
      rw [fetches, last]
      exact ending
    · rw [ended] at ending ⊢
      generalize run'.ending = final at ending ⊢
      cases ending
      exact .clockEnded
  · rw [created, created']
    exact (histories.perm_created
      (histories.append reorders.perm_entries (Reply.nodup_entries distinct))
      (created_of_passes entries distinct) (created_of_passes others distinct')).append alike.created
  · rw [resolved, resolved']
    exact alike.resolved

end Turns

/-- Two runs over replies that differ only in the order of resources go alike. -/
theorem go_reordered (cadence : Cadence) (clock : Nat) {state later : State}
    {replies others : List Reply} (reorders : List.Forall₂ Reply.Reorders replies others)
    (uncancelled : ∀ reply ∈ replies, reply.cancels = false)
    (distinct : ∀ reply ∈ replies, reply.Distinct) (same : state.Alike later) :
    Alike replies (go cadence clock state replies) (go cadence clock later others) := by
  -- the states are what the replies before left, and stay alike
  induction reorders generalizing state later with
  | nil =>
    rw [go, go, same.quiet, same.quiet', same.time]
    exact ⟨rfl, rfl, .pending, .refl _, .refl _⟩
  | @cons reply other replies others first rest ih =>
    rw [List.forall_mem_cons] at uncancelled distinct
    have awake := cancelledAt_of_quiet same.quiet
    have awake' := cancelledAt_of_quiet same.quiet'
    cases passes : reply.passes with
    | false =>
      obtain ⟨fetch, brought, decides⟩ := Reply.passes_eq_false.mp passes
      cases first with
      | failed delay error cancels => cases brought
      | fetched delay cancels reorders =>
        cases brought
        exact alike_decided delay cancels replies others same reorders (distinct.1 _ rfl) decides
    | true =>
      have passes' := first.passes_eq.trans passes
      have arrival : later.time + other.delay = state.time + reply.delay := by
        rw [same.time, first.delay_eq]
      by_cases inTime : clock + (state.time + reply.delay) + cadence.interval < clockEnd
      · rw [(Turned.continued passes inTime uncancelled.1 (awake _)).go_next (awake _),
          (Turned.continued passes' (arrival ▸ inTime) (first.cancels_eq.trans uncancelled.1)
            (awake' _)).go_next (awake' _)]
        obtain ⟨n, -, ticks⟩ :=
          exists_ticks cadence (reply.boardAfter state.board) cadence.interval
        obtain ⟨n', -, ticks'⟩ :=
          exists_ticks cadence (other.boardAfter later.board) cadence.interval
        rw [ticks, ticks']
        refine (ih uncancelled.2 distinct.2 (same.next first passes distinct.1)).passed (.inl ?_)
          same first passes distinct.1 n n'
        exact (fetches_pos_iff ..).mpr (awake _)
      · have late := Nat.le_of_not_lt inTime
        rw [(Turned.clockEnded (awake _) passes late).go_stop (awake _),
          (Turned.clockEnded (awake' _) passes' (arrival ▸ late)).go_stop (awake' _), arrival]
        have ended : Alike replies ⟨.clockEnded, state.time + reply.delay, []⟩
            ⟨.clockEnded, state.time + reply.delay, []⟩ :=
          ⟨rfl, rfl, .clockEnded, .refl _, .refl _⟩
        simpa [after] using ended.passed (.inr rfl) same first passes distinct.1 0 0

/-- The order in which the API lists resources does not matter to a run that is never cancelled and
whose fetches list no key twice. Over replies whose fetches list the same resources in another order
the run stops at the same fetch and at the same time, and it ends alike: reports differ only in the
order of their resources, the error of a failed workflow is the same, and the error of a failed
resource names one that failed in the last fetch, the same one if no other did. Both runs create the
same spinners and resolve them with the same outcomes and texts. -/
theorem ofReplies_reordered (cadence : Cadence) (clock : Nat) {replies others : List Reply}
    (uncancelled : ∀ reply ∈ replies, reply.cancels = false)
    (distinct : ∀ reply ∈ replies, reply.Distinct)
    (reorders : List.Forall₂ Reply.Reorders replies others) :
    Alike replies (ofReplies cadence clock none replies) (ofReplies cadence clock none others) :=
  go_reordered cadence clock reorders uncancelled distinct
    ⟨rfl, rfl, rfl, rfl, [], [], (Board.showing_nil []).symm, (Board.showing_nil []).symm,
      .refl _, fun _ => rfl⟩

/-- Two resources fail at once: each order names another one, and all else is the same. -/
theorem ofReplies_reordered_failures :
    let db : Resource := ⟨"i-1", "db", Steps.empty, some "failed"⟩
    let web : Resource := ⟨"i-2", "web", Steps.empty, some "failed"⟩
    let replies : List Reply := [.prompt (.ok ⟨[db, web], some (.ofStatus "running")⟩)]
    let others : List Reply := [.prompt (.ok ⟨[web, db], some (.ofStatus "running")⟩)]
    let run := ofReplies ⟨10, 100⟩ 0 none replies
    let other := ofReplies ⟨10, 100⟩ 0 none others
    (∀ reply ∈ replies, reply.cancels = false) ∧ (∀ reply ∈ replies, reply.Distinct) ∧
      List.Forall₂ Reply.Reorders replies others ∧ Alike replies run other ∧
      run.ending = .concluded (.error (.resourceFailed "db")) ∧
      other.ending = .concluded (.error (.resourceFailed "web")) := by
  intro db web replies others run other
  have uncancelled : ∀ reply ∈ replies, reply.cancels = false := by decide
  have distinct : ∀ reply ∈ replies, reply.Distinct := by
    simp only [replies, List.forall_mem_cons, Reply.Distinct, Reply.prompt]
    refine ⟨?_, List.forall_mem_nil _⟩
    rintro fetch ⟨⟩
    decide
  have reorders : List.Forall₂ Reply.Reorders replies others :=
    .cons (.fetched 0 false ⟨rfl, List.Perm.swap web db []⟩) .nil
  exact ⟨uncancelled, distinct, reorders,
    ofReplies_reordered ⟨10, 100⟩ 0 uncancelled distinct reorders, rfl, rfl⟩

end Run

end FleetControl
