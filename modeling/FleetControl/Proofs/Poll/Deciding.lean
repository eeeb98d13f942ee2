import FleetControl.Proofs.Poll.Shown

/-!
# Fetches that decide

Which fetches end a run, and how.

1. `Fetch.decides` is the condition and `Fetch.conclusion` the end, read off the fetch and the
   entries that earlier fetches showed.
2. `Fetch.closing` lists what is resolved at the end, apart from the resources that failed:
   these are resolved where they are shown.
3. `ofFetch_showing` says that applying a fetch with distinct keys does exactly this.
4. `conclusion_ofFetch` classifies the end on any board, for fetches that repeat a key.
-/

namespace FleetControl

namespace Fetch

def keys (fetch : Fetch) : List String :=
  fetch.resources.map (·.key)

/-- The entries that a fetch shows; without a record it shows none. -/
def shown (fetch : Fetch) : List Resource :=
  match fetch.workflow with
  | none => []
  | some _ => fetch.resources

def failed? (fetch : Fetch) : Option Resource :=
  fetch.resources.find? fun r => r.status == .failed

/-- Whether a fetch ends the run: there is no record, a resource failed, or the signal is final. -/
def decides (fetch : Fetch) : Bool :=
  match fetch.workflow with
  | none => true
  | some record => fetch.failed?.isSome || record.signal.isTerminal

/-- Whether a fetch ends the run well. -/
def succeeds (fetch : Fetch) : Bool :=
  match fetch.workflow with
  | none => true
  | some record => fetch.failed?.isNone && record.signal == .success

/-- The keys shown earlier that a fetch does not list, in the order of their first occurrence. -/
def absent (fetch : Fetch) (earlier : List Resource) : List String :=
  (firstKeys earlier).filter (· ∉ fetch.keys)

/-- How a run ends with this fetch as its last; `polls` counts the fetches. -/
def conclusion (fetch : Fetch) (earlier : List Resource) (polls : UInt32) : Conclusion :=
  match fetch.workflow with
  | none =>
    .ok ⟨none, .success, polls,
      (firstKeys earlier).map fun key => ⟨key, lastName earlier key, .completed⟩⟩
  | some record =>
    match fetch.failed? with
    | some resource => .error (.resourceFailed resource.displayName)
    | none =>
      if record.signal = .success then
        .ok ⟨some record.status, .success, polls,
          (fetch.resources.map fun r => ⟨r.key, r.displayName, .completed⟩) ++
            (fetch.absent earlier).map fun key => ⟨key, lastName earlier key, .completed⟩⟩
      else .error (.workflowFailed record.status)

/-- What is resolved at the end: each key with its outcome and its text. -/
def closing (fetch : Fetch) (earlier : List Resource) : List (String × Outcome × String) :=
  match fetch.workflow with
  | none => (firstKeys earlier).map fun key => (key, .success, lastName earlier key ++ ": completed")
  | some record =>
    let entries := earlier ++ fetch.resources
    if fetch.failed?.isSome then
      ((firstKeys entries).filter (· ∉ failedKeys fetch.resources)).map fun key =>
        (key, .error, lastName entries key ++ ": stopped")
    else if record.signal.isTerminal then
      let verdict := Decision.verdictOf record.signal
      (fetch.resources.map fun r =>
        let status := Decision.force verdict r.status
        (r.key, outcomeOf status, r.summaryLine status)) ++
      (fetch.absent earlier).map fun key =>
        (key, outcomeOf verdict.fallback, lastName earlier key ++ ": " ++ verdict.fallback.text)
    else []

@[simp] theorem mem_absent {fetch : Fetch} {earlier : List Resource} {key : String} :
    key ∈ fetch.absent earlier ↔ key ∈ firstKeys earlier ∧ key ∉ fetch.keys := by
  unfold absent
  rw [List.mem_filter, decide_eq_true_eq]

theorem nodup_absent (fetch : Fetch) (earlier : List Resource) : (fetch.absent earlier).Nodup :=
  (nodup_firstKeys earlier).filter _

theorem decides_eq_false {fetch : Fetch} :
    fetch.decides = false ↔
      ∃ record, fetch.workflow = some record ∧ fetch.failed? = none ∧
        record.signal.isTerminal = false := by
  unfold decides
  cases fetch.workflow with
  | none => simp
  | some record => simp

theorem nodup_shown {fetch : Fetch} (distinct : fetch.keys.Nodup) :
    (fetch.shown.map (·.key)).Nodup := by
  unfold shown
  cases fetch.workflow with
  | none => exact List.nodup_nil
  | some record => exact distinct

/-- A fetch with a record and without a failed resource decides by its signal only. -/
theorem isTerminal_of_decides {fetch : Fetch} {record : WorkflowRecord} (decides : fetch.decides)
    (hw : fetch.workflow = some record) (hf : fetch.failed? = none) : record.signal.isTerminal := by
  unfold Fetch.decides at decides
  simpa [hw, hf] using decides

theorem status_ne_failed {fetch : Fetch} (hf : fetch.failed? = none) {r : Resource}
    (hr : r ∈ fetch.resources) : r.status ≠ .failed := by
  have spared := List.find?_eq_none.mp hf r hr
  simpa using spared

end Fetch

/-! ## The decision -/

theorem evaluate_statuses (signal : Signal) (fetch : Fetch) :
    Decision.evaluate signal (statuses fetch.resources) =
      match fetch.failed? with
      | some r => .resourceFailed r.key
      | none =>
        if signal.isTerminal then
          .terminal (Decision.verdictOf signal) (fetch.resources.map fun r =>
            (r.key, Decision.force (Decision.verdictOf signal) r.status))
        else .continue := by
  unfold Decision.evaluate statuses Fetch.failed?
  rw [List.find?_map]
  simp only [Function.comp_def]
  cases fetch.resources.find? fun r => r.status == .failed with
  | none => simp [Function.comp_def]
  | some r => rfl

theorem failedKeys_eq_nil {resources : List Resource}
    (h : (resources.find? fun r => r.status == .failed) = none) : failedKeys resources = [] := by
  unfold failedKeys
  rw [List.map_eq_nil_iff, List.filter_eq_nil_iff]
  exact List.find?_eq_none.mp h

theorem find?_key {resources : List Resource} {r : Resource}
    (distinct : (resources.map (·.key)).Nodup) (h : r ∈ resources) :
    (resources.find? fun s => s.key == r.key) = some r := by
  induction resources with
  | nil => exact absurd h List.not_mem_nil
  | cons first rest ih =>
    rw [List.map_cons, List.nodup_cons] at distinct
    rcases List.mem_cons.mp h with rfl | h
    · rw [List.find?_cons_of_pos (by simp)]
    · rw [List.find?_cons_of_neg, ih distinct.2 h]
      intro he
      exact distinct.1 (List.mem_map.mpr ⟨r, h, (beq_iff_eq.mp he).symm⟩)

theorem forcedLine_key {resources : List Resource} {r : Resource}
    (distinct : (resources.map (·.key)).Nodup) (h : r ∈ resources) (name : String)
    (status : ResourceStatus) :
    forcedLine resources ⟨r.key, name, status⟩ = r.summaryLine status := by
  unfold forcedLine
  rw [find?_key distinct h]

/-- A success leaves nothing but completed resources, apart from failed ones. -/
theorem force_success {status : ResourceStatus} (h : status ≠ .failed) :
    Decision.force .success status = .completed := by
  cases status <;> first | rfl | exact absurd rfl h

theorem verdictOf_eq_success {signal : Signal} :
    Decision.verdictOf signal = .success ↔ signal = .success := by
  cases signal <;> simp [Decision.verdictOf]

theorem verdictOf_ne_success {signal : Signal} (h : signal ≠ .success) :
    Decision.verdictOf signal = .failure := by
  cases signal <;> first | rfl | exact absurd rfl h

/-! ## The ends on the board of a history -/

namespace Applied

def resolveCalls (items : List (String × Outcome × String)) : List Call :=
  items.map fun item => .resolve item.1 item.2.1 item.2.2

theorem resolveAll_keys (entries : List Resource) {done keys : List String}
    (final : String → Outcome × String) (distinct : keys.Nodup)
    (known : ∀ key ∈ keys, key ∈ firstKeys entries) (open_ : ∀ key ∈ keys, key ∉ done) :
    (Board.showing entries done).resolveAll (keys.map fun key => (key, final key)) =
      (.showing entries (done ++ keys), resolveCalls (keys.map fun key => (key, final key))) := by
  have names : (keys.map fun key => (key, final key)).map (·.1) = keys := by
    simp [Function.comp_def]
  rw [Board.resolveAll_showing, names]
  · rfl
  · rw [names]
    exact distinct
  · intro item hi
    obtain ⟨key, hk, rfl⟩ := List.mem_map.mp hi
    exact known key hk
  · intro item hi
    obtain ⟨key, hk, rfl⟩ := List.mem_map.mp hi
    exact open_ key hk

/-- The reports of the spinners that are left, resolved each with its own text. -/
theorem plainResolutions (board : Board) (status : ResourceStatus) :
    (leftOver board status).map plainResolution =
      board.unresolved.map fun key =>
        (key, outcomeOf status, board.nameOf key ++ ": " ++ status.text) := by
  unfold leftOver
  rw [List.map_map]
  rfl

theorem withoutWorkflow_showing (entries : List Resource) (polls : UInt32) :
    withoutWorkflow (.showing entries []) polls =
      ⟨.showing entries (firstKeys entries),
        resolveCalls ((firstKeys entries).map fun key =>
          (key, .success, lastName entries key ++ ": completed")),
        some (.ok ⟨none, .success, polls,
          (firstKeys entries).map fun key => ⟨key, lastName entries key, .completed⟩⟩)⟩ := by
  have left : (Board.showing entries []).unresolved = firstKeys entries := by
    rw [Board.unresolved_showing]
    simp
  have text : ∀ key, lastName entries key ++ ": " ++ ResourceStatus.completed.text =
      lastName entries key ++ ": completed" := fun key => String.append_assoc
  unfold withoutWorkflow
  dsimp only
  rw [plainResolutions, left]
  simp only [Board.nameOf_showing, text]
  rw [resolveAll_keys entries _ (nodup_firstKeys entries) (fun _ h => h)
    (fun _ _ => List.not_mem_nil)]
  unfold leftOver
  rw [left]
  simp only [Board.nameOf_showing]
  rfl

theorem byFailure_showing (entries : List Resource) (done : List String) (key : String) :
    byFailure (.showing entries done) key =
      ⟨.showing entries (done ++ (firstKeys entries).filter (· ∉ done)),
        resolveCalls (((firstKeys entries).filter (· ∉ done)).map fun other =>
          (other, .error, lastName entries other ++ ": stopped")),
        some (.error (.resourceFailed (lastName entries key)))⟩ := by
  unfold byFailure
  dsimp only
  rw [Board.unresolved_showing]
  simp only [Board.nameOf_showing]
  rw [resolveAll_keys entries _ ((nodup_firstKeys entries).filter _)
    (fun _ h => List.mem_of_mem_filter h)]
  intro other ho
  simpa using List.of_mem_filter ho

theorem bySignal_showing (earlier : List Resource) (fetch : Fetch) (verdict : Verdict)
    (status : String) (polls : UInt32) (distinct : fetch.keys.Nodup) :
    bySignal (.showing (earlier ++ fetch.resources) []) fetch.resources verdict
        (fetch.resources.map fun r => (r.key, Decision.force verdict r.status)) status polls =
      ⟨.showing (earlier ++ fetch.resources) (fetch.keys ++ fetch.absent earlier),
        resolveCalls ((fetch.resources.map fun r =>
            let status := Decision.force verdict r.status
            (r.key, outcomeOf status, r.summaryLine status)) ++
          (fetch.absent earlier).map fun key =>
            (key, outcomeOf verdict.fallback, lastName earlier key ++ ": " ++ verdict.fallback.text)),
        some (match verdict with
          | .success => .ok ⟨some status, verdict, polls,
              (fetch.resources.map fun r => ⟨r.key, r.displayName, Decision.force verdict r.status⟩) ++
                (fetch.absent earlier).map fun key =>
                  ⟨key, lastName earlier key, verdict.fallback⟩⟩
          | .failure => .error (.workflowFailed status))⟩ := by
  have others : (firstKeys (earlier ++ fetch.resources)).filter (· ∉ fetch.keys) =
      fetch.absent earlier := filter_firstKeys_append earlier fetch.resources
  have present : (fetch.resources.map fun r => (r.key, outcomeOf (Decision.force verdict r.status),
      r.summaryLine (Decision.force verdict r.status))).map (·.1) = fetch.keys := by
    unfold Fetch.keys
    rw [List.map_map]
    rfl
  have known : ∀ r ∈ fetch.resources, r.key ∈ firstKeys (earlier ++ fetch.resources) :=
    fun r hr => mem_firstKeys.mpr ⟨r, List.mem_append_right earlier hr, rfl⟩
  have named : ∀ key ∈ fetch.absent earlier,
      lastName (earlier ++ fetch.resources) key = lastName earlier key :=
    fun key hk => lastName_append_of_not_mem earlier _ (Fetch.mem_absent.mp hk).2
  unfold bySignal
  simp only [List.map_map, Function.comp_def, Board.nameOf_showing, plainResolutions]
  -- a resource of the fetch keeps its own name and line, as no other one has its key
  rw [List.map_congr_left fun r hr => congrArg
      (fun name => (⟨r.key, name, Decision.force verdict r.status⟩ : ResourceReport))
      (lastName_append_of_mem earlier distinct hr),
    List.map_congr_left fun r hr => congrArg (r.key, outcomeOf (Decision.force verdict r.status), ·)
      (forcedLine_key distinct hr _ _),
    Board.resolveAll_showing _ _ (present ▸ distinct), present, List.nil_append]
  · dsimp only
    unfold leftOver
    rw [Board.unresolved_showing, others, resolveAll_keys _ _ (fetch.nodup_absent earlier)]
    · simp only [Board.nameOf_showing]
      rw [List.map_congr_left fun key hk => congrArg
          (fun name => (⟨key, name, verdict.fallback⟩ : ResourceReport)) (named key hk),
        List.map_congr_left fun key hk => congrArg
          (fun name => (key, outcomeOf verdict.fallback, name ++ ": " ++ verdict.fallback.text))
          (named key hk)]
      refine congrArg (Applied.mk _ · _) ?_
      unfold resolveCalls
      rw [List.map_append]
    · intro key hk
      obtain ⟨r, hr, he⟩ := mem_firstKeys.mp (Fetch.mem_absent.mp hk).1
      exact mem_firstKeys.mpr ⟨r, List.mem_append_left _ hr, he⟩
    · exact fun key hk => (Fetch.mem_absent.mp hk).2
  · intro item hi
    obtain ⟨r, hr, rfl⟩ := List.mem_map.mp hi
    exact known r hr
  · exact fun _ _ => List.not_mem_nil

theorem conclusion_of_workflow {fetch : Fetch} {record : WorkflowRecord}
    (earlier : List Resource) (polls : UInt32) (hw : fetch.workflow = some record)
    (hf : fetch.failed? = none) :
    fetch.conclusion earlier polls =
      match Decision.verdictOf record.signal with
      | .success => .ok ⟨some record.status, Decision.verdictOf record.signal, polls,
          (fetch.resources.map fun r =>
            ⟨r.key, r.displayName, Decision.force (Decision.verdictOf record.signal) r.status⟩) ++
          (fetch.absent earlier).map fun key =>
            ⟨key, lastName earlier key, (Decision.verdictOf record.signal).fallback⟩⟩
      | .failure => .error (.workflowFailed record.status) := by
  unfold Fetch.conclusion
  rw [hw, hf]
  dsimp only
  by_cases hs : record.signal = .success
  · have completed : ∀ r ∈ fetch.resources, (⟨r.key, r.displayName,
        Decision.force .success r.status⟩ : ResourceReport) = ⟨r.key, r.displayName, .completed⟩ := by
      intro r hr
      rw [force_success (Fetch.status_ne_failed hf hr)]
    rw [if_pos hs, verdictOf_eq_success.mpr hs]
    dsimp only
    rw [List.map_congr_left completed]
    rfl
  · rw [if_neg hs, verdictOf_ne_success hs]

theorem ofFetch_showing (earlier : List Resource) (polls : UInt32) (fetch : Fetch)
    (distinct : fetch.keys.Nodup) :
    ofFetch (.showing earlier []) polls fetch =
      ⟨.showing (earlier ++ fetch.shown)
          (failedKeys fetch.shown ++ (fetch.closing earlier).map (·.1)),
        showCalls earlier fetch.shown ++ resolveCalls (fetch.closing earlier),
        if fetch.decides then some (fetch.conclusion earlier polls) else none⟩ := by
  unfold ofFetch Fetch.shown Fetch.closing Fetch.decides
  cases hw : fetch.workflow with
  | none =>
    dsimp only
    rw [withoutWorkflow_showing]
    simp [failedKeys, showCalls, Function.comp_def, Fetch.conclusion, hw]
  | some record =>
    dsimp only
    rw [observeAll_showing earlier fetch.resources distinct fun _ _ => List.not_mem_nil,
      evaluate_statuses, List.nil_append]
    cases hf : fetch.failed? with
    | some r =>
      have hr : r ∈ fetch.resources := List.mem_of_find?_eq_some hf
      dsimp only
      rw [byFailure_showing, lastName_append_of_mem earlier distinct hr]
      simp [Function.comp_def, Fetch.conclusion, hw, hf]
    | none =>
      rw [failedKeys_eq_nil hf]
      by_cases ht : record.signal.isTerminal
      · simp only [ht, if_true]
        rw [bySignal_showing earlier fetch _ _ _ distinct]
        rw [conclusion_of_workflow earlier polls hw hf]
        simp [Function.comp_def, Fetch.keys]
      · simp [ht, resolveCalls]

/-- How a fetch ends a run on any board. -/
theorem conclusion_ofFetch (board : Board) (polls : UInt32) (fetch : Fetch) :
    match (ofFetch board polls fetch).conclusion with
    | none => fetch.decides = false
    | some (.ok _) => fetch.succeeds
    | some (.error error) => fetch.decides ∧ fetch.succeeds = false ∧ error ≠ .cancelled := by
  unfold ofFetch Fetch.succeeds Fetch.decides
  cases fetch.workflow with
  | none => rfl
  | some record =>
    dsimp only
    rw [evaluate_statuses]
    cases fetch.failed? with
    | some r => simp [byFailure]
    | none =>
      dsimp only
      cases record.signal with
      | inProgress status => rfl
      | success => rfl
      | failed => simp [bySignal, Decision.verdictOf, Signal.isTerminal]
      | cancelled => simp [bySignal, Decision.verdictOf, Signal.isTerminal]

end Applied

end FleetControl
