import FleetControl.Proofs.Poll.Display

/-!
# How a run resolves what it created

For runs whose fetches list no key twice.

1. `Fetch.finals` lists what the last fetch of a run resolves: the failed resources where they are
   shown, then what `Fetch.closing` lists.
2. `perm_finals` says that these are all keys that were created, each once. `Fetch.Settles` says
   which outcome and which text each of them gets, and `settles_conclusion` that they are so.
3. `Traced.resolves` carries this over to runs: nothing is resolved before the last fetch.
-/

namespace FleetControl

/-- The final calls: each key that was resolved with its outcome and its text. -/
def Recording.finals (calls : List Call) : List (String × Outcome × String) :=
  calls.filterMap fun
    | .resolve key outcome text => some (key, outcome, text)
    | _ => none

namespace Fetch

def failedLines (fetch : Fetch) : List (String × Outcome × String) :=
  (fetch.shown.filter fun r => r.status == .failed).map fun r =>
    (r.key, .error, r.summaryLine r.status)

def finals (fetch : Fetch) (earlier : List Resource) : List (String × Outcome × String) :=
  fetch.failedLines ++ fetch.closing earlier

def entry? (fetch : Fetch) (key : String) : Option Resource :=
  fetch.resources.find? fun r => r.key == key

/-- The last text of a key when a resource failed: its own line if it failed itself. -/
def stopText (fetch : Fetch) (entries : List Resource) (key : String) : String :=
  match (fetch.entry? key).filter fun r => r.status == .failed with
  | some r => r.summaryLine .failed
  | none => lastName entries key ++ ": stopped"

/-- The last text of a key when a signal ended the workflow: the line of its entry under the forced
status, or the name it had last. -/
def signalText (fetch : Fetch) (entries : List Resource) (verdict : Verdict) (key : String) :
    String :=
  match fetch.entry? key with
  | some r => r.summaryLine (Decision.force verdict r.status)
  | none => lastName entries key ++ ": " ++ verdict.fallback.text

/-- What the resolutions of a run show, given how the run ended: `fetch` is its last fetch,
`entries` are all that were shown and `created` are their keys. -/
structure Settles (fetch : Fetch) (entries : List Resource) (created : List String)
    (conclusion : Conclusion) (finals : List (String × Outcome × String)) : Prop where
  /-- After a success every resolution is one, and the report names the created keys. -/
  reported : ∀ report, conclusion = .ok report →
    (∀ final ∈ finals, final.2.1 = .success) ∧
      ∀ key, key ∈ report.resources.map (·.key) ↔ key ∈ created
  /-- After a failed resource every resolution is an error. -/
  stopped : ∀ name, conclusion = .error (.resourceFailed name) →
    ∀ final ∈ finals, final.2.1 = .error ∧ final.2.2 = fetch.stopText entries final.1
  /-- After a failed workflow only what completed by itself is a success. -/
  failed : ∀ status, conclusion = .error (.workflowFailed status) →
    ∀ final ∈ finals, final.2.1 = .success ↔
      ∃ r ∈ fetch.resources, r.key = final.1 ∧ r.status = .completed
  /-- After a signal every text is that of a forced status. -/
  signalled : ∀ record, fetch.workflow = some record → fetch.failed? = none →
    ∀ final ∈ finals,
      final.2.2 = fetch.signalText entries (Decision.verdictOf record.signal) final.1

theorem entry?_of_mem {fetch : Fetch} {r : Resource} (distinct : fetch.keys.Nodup)
    (h : r ∈ fetch.resources) : fetch.entry? r.key = some r :=
  find?_key distinct h

theorem entry?_eq_none {fetch : Fetch} {key : String} : fetch.entry? key = none ↔ key ∉ fetch.keys := by
  unfold entry? keys
  rw [List.find?_eq_none, List.mem_map, not_exists]
  simp

/-! ## What the last fetch resolves, case by case -/

theorem finals_of_none {fetch : Fetch} (earlier : List Resource) (hw : fetch.workflow = none) :
    fetch.finals earlier =
      (firstKeys earlier).map fun key => (key, .success, lastName earlier key ++ ": completed") := by
  unfold finals failedLines shown closing
  rw [hw]
  rfl

theorem finals_of_failed {fetch : Fetch} {record : WorkflowRecord} {r : Resource}
    (earlier : List Resource) (hw : fetch.workflow = some record) (hf : fetch.failed? = some r) :
    fetch.finals earlier =
      ((fetch.resources.filter fun r => r.status == .failed).map fun r =>
        (r.key, .error, r.summaryLine r.status)) ++
      ((firstKeys (earlier ++ fetch.resources)).filter (· ∉ failedKeys fetch.resources)).map fun key =>
        (key, .error, lastName (earlier ++ fetch.resources) key ++ ": stopped") := by
  unfold finals failedLines shown closing
  rw [hw, hf]
  rfl

theorem finals_of_signal {fetch : Fetch} {record : WorkflowRecord} (earlier : List Resource)
    (hw : fetch.workflow = some record) (hf : fetch.failed? = none)
    (ht : record.signal.isTerminal) :
    fetch.finals earlier =
      (fetch.resources.map fun r =>
        (r.key, outcomeOf (Decision.force (Decision.verdictOf record.signal) r.status),
          r.summaryLine (Decision.force (Decision.verdictOf record.signal) r.status))) ++
      (fetch.absent earlier).map fun key =>
        (key, outcomeOf (Decision.verdictOf record.signal).fallback,
          lastName earlier key ++ ": " ++ (Decision.verdictOf record.signal).fallback.text) := by
  have none_failed : fetch.resources.filter (fun r => r.status == .failed) = [] := by
    rw [List.filter_eq_nil_iff]
    exact List.find?_eq_none.mp hf
  unfold finals failedLines shown closing
  rw [hw, hf]
  simp [none_failed, ht]

theorem shown_of_some {fetch : Fetch} {record : WorkflowRecord}
    (hw : fetch.workflow = some record) : fetch.shown = fetch.resources := by
  unfold shown
  rw [hw]

theorem perm_append_filter {keys all : List String} (distinct : keys.Nodup) (nodup : all.Nodup)
    (known : keys ⊆ all) : (keys ++ all.filter (· ∉ keys)).Perm all := by
  have apart : List.Disjoint keys (all.filter (· ∉ keys)) := by
    intro key hk hf
    simp [hk] at hf
  rw [List.perm_ext_iff_of_nodup (distinct.append (nodup.filter _) apart) nodup]
  intro key
  by_cases hk : key ∈ keys
  · simp [hk, known hk]
  · simp [hk]

theorem keys_subset (fetch : Fetch) (earlier : List Resource) :
    fetch.keys ⊆ firstKeys (earlier ++ fetch.resources) := by
  intro key hk
  obtain ⟨r, hr, rfl⟩ := List.mem_map.mp hk
  exact mem_firstKeys.mpr ⟨r, List.mem_append_right earlier hr, rfl⟩

theorem perm_absent (fetch : Fetch) (earlier : List Resource) (distinct : fetch.keys.Nodup) :
    (fetch.keys ++ fetch.absent earlier).Perm (firstKeys (earlier ++ fetch.resources)) := by
  have others : (firstKeys (earlier ++ fetch.resources)).filter (· ∉ fetch.keys) =
      fetch.absent earlier := filter_firstKeys_append earlier fetch.resources
  rw [← others]
  exact perm_append_filter distinct (nodup_firstKeys _) (fetch.keys_subset earlier)

theorem perm_finals {fetch : Fetch} (earlier : List Resource) (distinct : fetch.keys.Nodup)
    (decides : fetch.decides) :
    ((fetch.finals earlier).map (·.1)).Perm (firstKeys (earlier ++ fetch.shown)) := by
  cases hw : fetch.workflow with
  | none =>
    rw [finals_of_none earlier hw]
    unfold shown
    rw [hw, List.append_nil, List.map_map]
    exact List.Perm.of_eq (List.map_id' (firstKeys earlier))
  | some record =>
    rw [shown_of_some hw]
    cases hf : fetch.failed? with
    | some r =>
      have failed : (failedKeys fetch.resources).Sublist fetch.keys := List.filter_sublist.map _
      have names : (fetch.finals earlier).map (·.1) = failedKeys fetch.resources ++
          (firstKeys (earlier ++ fetch.resources)).filter (· ∉ failedKeys fetch.resources) := by
        rw [finals_of_failed earlier hw hf, List.map_append, List.map_map, List.map_map]
        exact congrArg _ (List.map_id' _)
      -- what failed was resolved where it was shown, the board resolves the others
      rw [names]
      exact perm_append_filter (distinct.sublist failed) (nodup_firstKeys _)
        (List.Subset.trans failed.subset (fetch.keys_subset earlier))
    | none =>
      have ht := isTerminal_of_decides decides hw hf
      have names : (fetch.finals earlier).map (·.1) = fetch.keys ++ fetch.absent earlier := by
        rw [finals_of_signal earlier hw hf ht, List.map_append, List.map_map, List.map_map]
        exact congrArg _ (List.map_id' _)
      rw [names]
      exact fetch.perm_absent earlier distinct

/-! ## How the last fetch resolves it -/

theorem settles_of_none {fetch : Fetch} (earlier : List Resource) (polls : UInt32)
    (hw : fetch.workflow = none) :
    fetch.Settles earlier (firstKeys earlier) (fetch.conclusion earlier polls)
      (fetch.finals earlier) := by
  rw [finals_of_none earlier hw]
  unfold conclusion
  rw [hw]
  refine ⟨?_, nofun, nofun, fun record h => absurd (hw.symm.trans h) nofun⟩
  rintro report ⟨⟩
  refine ⟨?_, fun key => ?_⟩
  · intro final hm
    obtain ⟨key, -, rfl⟩ := List.mem_map.mp hm
    rfl
  · rw [List.map_map]
    exact iff_of_eq (congrArg (key ∈ ·) (List.map_id' (firstKeys earlier)))

theorem settles_of_failed {fetch : Fetch} {record : WorkflowRecord} {first : Resource}
    (earlier : List Resource) (polls : UInt32) (distinct : fetch.keys.Nodup)
    (hw : fetch.workflow = some record) (hf : fetch.failed? = some first) :
    fetch.Settles (earlier ++ fetch.resources) (firstKeys (earlier ++ fetch.resources))
      (fetch.conclusion earlier polls) (fetch.finals earlier) := by
  rw [finals_of_failed earlier hw hf]
  unfold conclusion
  rw [hw, hf]
  refine ⟨nofun, fun name _ => ?_, nofun, fun _ _ h => absurd (hf.symm.trans h) nofun⟩
  intro final hm
  rcases List.mem_append.mp hm with hm | hm
  · obtain ⟨r, hr, rfl⟩ := List.mem_map.mp hm
    obtain ⟨hr, failed⟩ := List.mem_filter.mp hr
    refine ⟨rfl, ?_⟩
    unfold stopText
    rw [entry?_of_mem distinct hr, Option.filter_some, if_pos failed]
    exact congrArg r.summaryLine (beq_iff_eq.mp failed)
  · obtain ⟨key, hk, rfl⟩ := List.mem_map.mp hm
    have spared : key ∉ failedKeys fetch.resources := by simpa using (List.mem_filter.mp hk).2
    refine ⟨rfl, ?_⟩
    unfold stopText
    have others : (fetch.entry? key).filter (fun r => r.status == .failed) = none := by
      rw [Option.filter_eq_none_iff]
      intro r he failed
      have hk : r.key = key := by simpa using List.find?_some he
      exact spared (List.mem_map.mpr ⟨r, List.mem_filter.mpr ⟨List.mem_of_find?_eq_some he, failed⟩, hk⟩)
    rw [others]

/-- The last text of a key under a signal is the one that the fetch resolves it with. -/
theorem signalText_finals {fetch : Fetch} {record : WorkflowRecord} (earlier : List Resource)
    (distinct : fetch.keys.Nodup) (hw : fetch.workflow = some record) (hf : fetch.failed? = none)
    (ht : record.signal.isTerminal) {final : String × Outcome × String}
    (hm : final ∈ fetch.finals earlier) :
    final.2.2 = fetch.signalText (earlier ++ fetch.resources)
      (Decision.verdictOf record.signal) final.1 := by
  rw [finals_of_signal earlier hw hf ht] at hm
  unfold signalText
  rcases List.mem_append.mp hm with hm | hm
  · obtain ⟨r, hr, rfl⟩ := List.mem_map.mp hm
    dsimp only
    rw [entry?_of_mem distinct hr]
  · obtain ⟨key, hk, rfl⟩ := List.mem_map.mp hm
    obtain ⟨-, absent⟩ := mem_absent.mp hk
    dsimp only
    rw [entry?_eq_none.mpr absent]
    rw [lastName_append_of_not_mem earlier _ absent]

/-- Forced to a failure, only what completed by itself is a success. -/
theorem outcomeOf_force_failure {status : ResourceStatus} (h : status ≠ .failed) :
    outcomeOf (Decision.force .failure status) = .success ↔ status = .completed := by
  cases status <;> simp [outcomeOf, Decision.force, ResourceStatus.isTerminal, Verdict.fallback] at h ⊢

theorem outcome_of_success {fetch : Fetch} {record : WorkflowRecord} (earlier : List Resource)
    (hw : fetch.workflow = some record) (hf : fetch.failed? = none)
    (hs : record.signal = .success) {final : String × Outcome × String}
    (hm : final ∈ fetch.finals earlier) : final.2.1 = .success := by
  have ht : record.signal.isTerminal := by rw [hs]; rfl
  rw [finals_of_signal earlier hw hf ht, verdictOf_eq_success.mpr hs] at hm
  rcases List.mem_append.mp hm with hm | hm
  · obtain ⟨r, hr, rfl⟩ := List.mem_map.mp hm
    dsimp only
    rw [force_success (status_ne_failed hf hr)]
    rfl
  · obtain ⟨key, -, rfl⟩ := List.mem_map.mp hm
    rfl

theorem outcome_of_failure {fetch : Fetch} {record : WorkflowRecord} (earlier : List Resource)
    (distinct : fetch.keys.Nodup) (hw : fetch.workflow = some record) (hf : fetch.failed? = none)
    (ht : record.signal.isTerminal) (hs : record.signal ≠ .success)
    {final : String × Outcome × String} (hm : final ∈ fetch.finals earlier) :
    final.2.1 = .success ↔ ∃ r ∈ fetch.resources, r.key = final.1 ∧ r.status = .completed := by
  rw [finals_of_signal earlier hw hf ht, verdictOf_ne_success hs] at hm
  rcases List.mem_append.mp hm with hm | hm
  · obtain ⟨r, hr, rfl⟩ := List.mem_map.mp hm
    dsimp only
    rw [outcomeOf_force_failure (status_ne_failed hf hr)]
    constructor
    · exact fun completed => ⟨r, hr, rfl, completed⟩
    · -- among distinct keys the other resource of this key is the same one
      rintro ⟨s, hs, same, completed⟩
      have found := entry?_of_mem distinct hs
      rw [same, entry?_of_mem distinct hr] at found
      rw [Option.some.inj found]
      exact completed
  · obtain ⟨key, hk, rfl⟩ := List.mem_map.mp hm
    obtain ⟨-, absent⟩ := mem_absent.mp hk
    refine iff_of_false nofun ?_
    rintro ⟨r, hr, same, -⟩
    exact absent (List.mem_map.mpr ⟨r, hr, same⟩)

theorem settles_of_signal {fetch : Fetch} {record : WorkflowRecord} (earlier : List Resource)
    (polls : UInt32) (distinct : fetch.keys.Nodup) (hw : fetch.workflow = some record)
    (hf : fetch.failed? = none) (ht : record.signal.isTerminal) :
    fetch.Settles (earlier ++ fetch.resources) (firstKeys (earlier ++ fetch.resources))
      (fetch.conclusion earlier polls) (fetch.finals earlier) := by
  have signalled : ∀ other, fetch.workflow = some other → fetch.failed? = none →
      ∀ final ∈ fetch.finals earlier, final.2.2 = fetch.signalText (earlier ++ fetch.resources)
        (Decision.verdictOf other.signal) final.1 := by
    intro other ho _ final hm
    rw [← Option.some.inj (hw.symm.trans ho)]
    exact signalText_finals earlier distinct hw hf ht hm
  unfold conclusion
  rw [hw, hf]
  dsimp only
  by_cases hs : record.signal = .success
  · rw [if_pos hs]
    refine ⟨?_, nofun, nofun, hw ▸ signalled⟩
    rintro report ⟨⟩
    refine ⟨fun final hm => outcome_of_success earlier hw hf hs hm, fun key => ?_⟩
    rw [List.map_append, List.map_map, List.map_map, ← (fetch.perm_absent earlier distinct).mem_iff]
    exact iff_of_eq (congrArg (fun names => key ∈ fetch.keys ++ names)
      (List.map_id' (fetch.absent earlier)))
  · rw [if_neg hs]
    exact ⟨nofun, nofun,
      fun status _ final hm => outcome_of_failure earlier distinct hw hf ht hs hm, hw ▸ signalled⟩

theorem settles_conclusion {fetch : Fetch} (earlier : List Resource) (polls : UInt32)
    (distinct : fetch.keys.Nodup) (decides : fetch.decides) :
    fetch.Settles (earlier ++ fetch.shown) (firstKeys (earlier ++ fetch.shown))
      (fetch.conclusion earlier polls) (fetch.finals earlier) := by
  cases hw : fetch.workflow with
  | none =>
    have none_shown : fetch.shown = [] := by
      unfold shown
      rw [hw]
    rw [none_shown, List.append_nil]
    exact settles_of_none earlier polls hw
  | some record =>
    rw [shown_of_some hw]
    cases hf : fetch.failed? with
    | some r => exact settles_of_failed earlier polls distinct hw hf
    | none =>
      exact settles_of_signal earlier polls distinct hw hf (isTerminal_of_decides decides hw hf)

end Fetch

/-! ## Whole runs -/

namespace Recording

@[simp] theorem finals_append (xs ys : List Call) : finals (xs ++ ys) = finals xs ++ finals ys :=
  List.filterMap_append ..

theorem finals_ticks (n : Nat) : finals (List.replicate n .tick) = [] := by
  unfold finals
  rw [List.filterMap_eq_nil_iff]
  intro call hc
  rw [List.eq_of_mem_replicate hc]

theorem map_finals (calls : List Call) : (finals calls).map (·.1) = resolvedKeys calls := by
  unfold finals resolvedKeys resolutions
  rw [List.map_filterMap, List.map_filterMap]
  refine List.filterMap_congr fun call _ => ?_
  cases call <;> rfl

theorem finals_showCalls (earlier entries : List Resource) :
    finals (showCalls earlier entries) =
      (entries.filter fun r => r.status == .failed).map fun r =>
        (r.key, .error, r.summaryLine r.status) := by
  induction entries generalizing earlier with
  | nil => rfl
  | cons r rest ih =>
    have own : finals (entryCalls earlier r) =
        if r.status = .failed then [(r.key, .error, r.summaryLine r.status)] else [] := by
      unfold entryCalls
      by_cases hk : r.key ∈ firstKeys earlier <;> by_cases hf : r.status = .failed <;>
        simp [finals, hk, hf]
    rw [showCalls, finals_append, ih, own]
    by_cases hf : r.status = .failed
    · rw [if_pos hf, List.filter_cons_of_pos (by simpa using hf)]
      rfl
    · rw [if_neg hf, List.filter_cons_of_neg (by simpa using hf)]
      rfl

theorem finals_resolveCalls (items : List (String × Outcome × String)) :
    finals (Applied.resolveCalls items) = items := by
  unfold finals Applied.resolveCalls
  rw [List.filterMap_map]
  exact List.filterMap_some

end Recording

open Recording

namespace Run

theorem finals_of_passes {reply : Reply} (earlier : List Resource) (passes : reply.passes)
    (distinct : reply.Distinct) : finals (reply.calls (.showing earlier [])) = [] := by
  have failed := Reply.failedKeys_entries passes
  unfold Reply.calls
  unfold Reply.entries at failed
  cases hr : reply.result with
  | error error => rfl
  | ok fetch =>
    rw [hr] at failed
    dsimp only at failed ⊢
    rw [observeAll_showing earlier _ (Fetch.nodup_shown (distinct fetch hr))
      fun _ _ => List.not_mem_nil, finals_showCalls]
    rw [List.map_eq_nil_iff]
    exact List.map_eq_nil_iff.mp failed

/-- The resolutions of a run that concluded: none before its last fetch, and there exactly those
that the fetch lists. -/
theorem Traced.resolves {board : Board} {polls : UInt32} {applied : List Reply} {trace : List Moment}
    {conclusion : Conclusion} (traced : Traced board polls applied trace (some conclusion))
    {earlier : List Resource} (shown : board = .showing earlier [])
    (distinct : ∀ reply ∈ applied, reply.Distinct) :
    ∃ first last fetch before calls, applied = first ++ [last] ∧ last.result = .ok fetch ∧
      fetch.decides ∧ trace = before ++ .fetch :: calls.map .call ∧
      finals (callsOf before) = [] ∧
      finals calls = fetch.finals (earlier ++ first.flatMap Reply.entries) ∧
      conclusion = fetch.conclusion (earlier ++ first.flatMap Reply.entries)
        (polls + UInt32.ofNat first.length + 1) := by
  generalize he : some conclusion = decision at traced
  induction traced generalizing earlier with
  | stopped => cases he
  | pending => cases he
  | @decided board polls reply decision decided =>
    cases he
    -- the one reply that decides is the last one: all that is resolved is resolved here
    have stops : reply.passes = false := by
      rw [← Bool.not_eq_true, ← conclusion_applyResult board (polls + 1), decided]
      nofun
    obtain ⟨fetch, hr, decides⟩ := Reply.passes_eq_false.mp stops
    subst shown
    have applied := Applied.ofFetch_showing earlier (polls + 1) fetch
      (distinct reply List.mem_cons_self fetch hr)
    rw [← applyResult_of_ok hr] at applied
    rw [applied, if_pos decides] at decided
    refine ⟨[], reply, fetch, [], _, rfl, hr, decides, rfl, rfl, ?_, ?_⟩
    · rw [applied, finals_append, finals_showCalls, finals_resolveCalls, List.flatMap_nil,
        List.append_nil]
      rfl
    · rw [List.flatMap_nil, List.append_nil, List.length_nil]
      exact (Option.some.inj decided).symm.trans (congrArg _ (congrArg (· + 1) (UInt32.add_zero _).symm))
  | @passed board polls reply rest ticks trace decision passes still later ih =>
    rw [List.forall_mem_cons] at distinct
    have next : reply.boardAfter board = .showing (earlier ++ reply.entries) [] := by
      rw [shown]
      exact Reply.boardAfter_showing earlier passes distinct.1
    obtain ⟨first, last, fetch, before, calls, rfl, hr, decides, rfl, silent, own, ends⟩ :=
      ih next distinct.2 he
    refine ⟨reply :: first, last, fetch,
      .fetch :: (reply.calls board).map .call ++ List.replicate ticks (.call .tick) ++ before,
      calls, rfl, hr, decides, ?_, ?_, ?_, ?_⟩
    · exact (List.append_assoc ..).symm
    · rw [← List.map_replicate, List.cons_append, List.cons_append, callsOf_fetch, callsOf_append,
        callsOf_append, callsOf_map, callsOf_map, finals_append, finals_append, shown,
        finals_of_passes earlier passes distinct.1, finals_ticks, silent]
      rfl
    · rw [own, List.flatMap_cons, List.append_assoc]
    · rw [ends, List.flatMap_cons, List.append_assoc, List.length_cons, count_succ]

/-- Every run whose fetches list no key twice and that returns anything other than a cancellation
resolves all that it created: no resolve comes before its last fetch, and in the end every created
key was resolved exactly once. The outcomes and the last texts agree with how the run ended. -/
theorem ofReplies_resolution (cadence : Cadence) (clock : Nat) (cancel : Option Nat)
    (replies : List Reply) (conclusion : Conclusion) (distinct : ∀ reply ∈ replies, reply.Distinct)
    (ends : (ofReplies cadence clock cancel replies).ending = .concluded conclusion)
    (returns : conclusion ≠ .error .cancelled) :
    let run := ofReplies cadence clock cancel replies
    ∃ (first : List Reply) (last : Reply) (rest : List Reply) (fetch : Fetch)
      (before : List Moment) (calls : List Call),
      replies = first ++ last :: rest ∧ last.result = .ok fetch ∧
      run.trace = before ++ .fetch :: calls.map .call ∧ finals (callsOf before) = [] ∧
      (createdKeys run.calls).Nodup ∧ (resolvedKeys run.calls).Perm (createdKeys run.calls) ∧
      fetch.Settles ((first ++ [last]).flatMap Reply.entries) (createdKeys run.calls) conclusion
        (finals run.calls) := by
  intro run
  obtain ⟨applied, decision, ⟨rest, whole⟩, traced, fits⟩ :=
    go_traced cadence clock ⟨0, 0, [], cancel⟩ replies
  change run.ending.Fits decision at fits
  cases decision with
  | none =>
    rcases fits with fits | fits
    · rw [ends] at fits
      cases fits
      exact absurd rfl returns
    · rw [ends] at fits
      cases fits
  | some decided =>
    have same : run.ending = .concluded decided := fits
    rw [ends] at same
    cases same
    have distinct : ∀ reply ∈ applied, reply.Distinct :=
      fun reply hr => distinct reply (whole ▸ List.mem_append_left rest hr)
    obtain ⟨-, -, final, reflects, keys⟩ :=
      traced.display Board.Reflects.nil (Board.showing_nil [] ▸ Board.keys_showing [] [])
    obtain ⟨first, last, fetch, before, calls, rfl, hr, decides, trace, silent, own, rfl⟩ :=
      traced.resolves (Board.showing_nil []).symm distinct
    have fetched : fetch.keys.Nodup := distinct last (by simp) fetch hr
    have entries : (first ++ [last]).flatMap Reply.entries =
        first.flatMap Reply.entries ++ fetch.shown := by
      rw [List.flatMap_append, List.flatMap_singleton]
      unfold Reply.entries
      rw [hr]
    have names : createdKeys run.calls = firstKeys (first.flatMap Reply.entries ++ fetch.shown) :=
      reflects.keys.symm.trans (entries ▸ keys)
    have resolved : finals run.calls = fetch.finals (first.flatMap Reply.entries) := by
      change finals (callsOf run.trace) = _
      rw [show run.trace = _ from trace, callsOf_append, callsOf_fetch, callsOf_map, finals_append,
        silent, own]
      rfl
    refine ⟨first, last, rest, fetch, before, calls, ?_, hr, trace, silent, ?_, ?_, ?_⟩
    · rw [← whole, List.append_assoc]
      rfl
    · rw [names]
      exact nodup_firstKeys _
    · rw [← map_finals, resolved, names]
      exact Fetch.perm_finals _ fetched decides
    · rw [entries, resolved, names]
      exact Fetch.settles_conclusion _ _ fetched decides

/-- A failed workflow: what completed by itself is a success, what vanished is not. -/
theorem ofReplies_resolution_vanishing :
    let db : Resource := ⟨"i-1", "db", Steps.empty, some "running"⟩
    let web : Resource := ⟨"i-2", "web", Steps.empty, some "completed"⟩
    let replies : List Reply := [.prompt (.ok ⟨[db], some (.ofStatus "running")⟩),
      .prompt (.ok ⟨[web], some (.ofStatus "failed")⟩)]
    let run := ofReplies ⟨10, 100⟩ 0 none replies
    (∀ reply ∈ replies, reply.Distinct) ∧
      run.ending = .concluded (.error (.workflowFailed "failed")) ∧
      (resolvedKeys run.calls).Perm (createdKeys run.calls) ∧
      finals run.calls =
        [("i-2", .success, "web: completed"), ("i-1", .error, "db: failed")] := by
  intro db web replies run
  have distinct : ∀ reply ∈ replies, reply.Distinct := by
    simp only [replies, List.forall_mem_cons, Reply.Distinct, Reply.prompt]
    refine ⟨?_, ?_, nofun⟩ <;> rintro fetch ⟨⟩ <;> decide
  obtain ⟨first, last, rest, fetch, before, calls, -, -, -, -, -, resolved, -⟩ :=
    ofReplies_resolution ⟨10, 100⟩ 0 none replies (.error (.workflowFailed "failed")) distinct rfl
      nofun
  exact ⟨distinct, rfl, resolved, by decide⟩

end Run

end FleetControl
