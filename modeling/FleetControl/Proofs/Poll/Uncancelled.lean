import FleetControl.Proofs.Poll.Passing

/-!
# Runs that are never cancelled

1. Such a run gets past every reply that passes, as long as the clock of the process lasts
   (`go_passing`), and ends in the first pause that the clock does not reach (`go_late`).
2. So the whole run is decided by the first reply that does not pass, and its end is the
   conclusion of that fetch after the entries of the earlier ones.
-/

namespace FleetControl

/-- An ending that agrees with the last fetch: a report if the fetch is a success, else an error
that is not an interruption. -/
def Ending.Agrees (ending : Ending) (succeeds : Bool) : Prop :=
  match ending with
  | .concluded (.ok _) => succeeds
  | .concluded (.error error) => succeeds = false ∧ error ≠ .cancelled
  | .clockEnded => False

namespace Run

theorem State.cancel_past (cadence : Cadence) (state : State) (replies : List Reply)
    (quiet : state.cancel = none) : (state.past cadence replies).cancel = none := by
  rw [token_past, quiet]

theorem State.board_past (cadence : Cadence) (state : State) {entries : List Resource}
    (replies : List Reply) (shown : state.board = .showing entries [])
    (passes : ∀ reply ∈ replies, reply.passes) (distinct : ∀ reply ∈ replies, reply.Distinct) :
    (state.past cadence replies).board = .showing (entries ++ replies.flatMap Reply.entries) [] := by
  induction replies generalizing state entries with
  | nil => rw [List.flatMap_nil, List.append_nil]; exact shown
  | cons reply rest ih =>
    rw [List.forall_mem_cons] at passes distinct
    have next : (state.next cadence reply).board = .showing (entries ++ reply.entries) [] := by
      rw [← Reply.boardAfter_showing entries passes.1 distinct.1, ← shown]
      rfl
    rw [past_cons, ih _ next passes.2 distinct.2, List.flatMap_cons, List.append_assoc]

/-! ## One turn -/

theorem turn_uncancelled (cadence : Cadence) (clock : Nat) {state : State} {reply : Reply}
    (quiet : state.cancel = none) (uncancelled : reply.cancels = false) :
    turn cadence clock state reply =
      match (applyResult state.board (state.polls + 1) reply.result).conclusion with
      | some conclusion =>
        .stop ⟨.concluded conclusion, state.time + reply.delay, shownBy state reply⟩
      | none =>
        if clock + (state.time + reply.delay) + cadence.interval < clockEnd then
          .next (shownBy state reply ++ ticks cadence
              (applyResult state.board (state.polls + 1) reply.result).board cadence.interval)
            ⟨state.time + reply.delay + cadence.interval, state.polls + 1,
              (applyResult state.board (state.polls + 1) reply.result).board, none⟩
        else .stop ⟨.clockEnded, state.time + reply.delay, shownBy state reply⟩ := by
  have awake := cancelledAt_of_quiet quiet
  cases hc : (applyResult state.board (state.polls + 1) reply.result).conclusion with
  | some conclusion => exact (Turned.concluded conclusion (awake _) hc).turn_eq
  | none =>
    have passes : reply.passes := (conclusion_applyResult _ _ reply).mp hc
    rw [applyResult_of_passes passes, ← quiet]
    dsimp only
    split
    · next inTime => exact (Turned.continued passes inTime uncancelled (awake _)).turn_eq
    · next late => exact (Turned.clockEnded (awake _) passes (Nat.le_of_not_lt late)).turn_eq

/-! ## Whole runs -/

theorem go_passing (cadence : Cadence) (clock : Nat) (state : State) (earlier rest : List Reply)
    (quiet : state.cancel = none) (uncancelled : ∀ reply ∈ earlier, reply.cancels = false)
    (passes : ∀ reply ∈ earlier, reply.passes)
    (lasts : Lasts cadence (clock + state.time) earlier) :
    (go cadence clock state (earlier ++ rest)).ending =
        (go cadence clock (state.past cadence earlier) rest).ending ∧
      (go cadence clock state (earlier ++ rest)).fetches =
        earlier.length + (go cadence clock (state.past cadence earlier) rest).fetches := by
  rw [go_past cadence clock state earlier rest quiet uncancelled passes lasts]
  exact ⟨rfl, fetches_passed cadence state.board earlier _⟩

theorem go_late (cadence : Cadence) (clock : Nat) (state : State) (earlier rest : List Reply)
    (quiet : state.cancel = none) (uncancelled : ∀ reply ∈ earlier, reply.cancels = false)
    (passes : ∀ reply ∈ earlier, reply.passes)
    (ends : ¬ Lasts cadence (clock + state.time) earlier) :
    (go cadence clock state (earlier ++ rest)).ending = .clockEnded := by
  induction earlier generalizing state with
  | nil => exact absurd (.inl rfl) ends
  | cons reply earlier ih =>
    rw [List.forall_mem_cons] at uncancelled passes
    rw [lasts_cons, not_and] at ends
    have awake := cancelledAt_of_quiet quiet
    rw [List.cons_append]
    by_cases inTime : clock + (state.time + reply.delay) + cadence.interval < clockEnd
    · rw [(Turned.continued passes.1 inTime uncancelled.1 (awake _)).go_next (awake _)]
      refine ih (state.next cadence reply) quiet uncancelled.2 passes.2 ?_
      simpa only [State.next, Nat.add_assoc] using ends (by omega)
    · have late := Nat.le_of_not_lt inTime
      rw [(Turned.clockEnded (awake _) passes.1 late).go_stop (awake _)]

/-- The turn with a reply that does not pass is the last one. -/
theorem go_deciding (cadence : Cadence) (clock : Nat) {state : State} {fetch : Fetch}
    {last : Reply} (rest : List Reply) (quiet : state.cancel = none)
    (uncancelled : last.cancels = false) (brings : last.result = .ok fetch) {entries : List Resource}
    (shown : state.board = .showing entries []) (distinct : fetch.keys.Nodup)
    (decides : fetch.decides) :
    (go cadence clock state (last :: rest)).ending =
        .concluded (fetch.conclusion entries (state.polls + 1)) ∧
      (go cadence clock state (last :: rest)).fetches = 1 := by
  have concluded : (applyResult state.board (state.polls + 1) last.result).conclusion =
      some (fetch.conclusion entries (state.polls + 1)) := by
    rw [applyResult_of_ok brings, shown, Applied.ofFetch_showing entries _ fetch distinct,
      if_pos decides]
  rw [go_cons cadence clock last rest (cancelledAt_of_quiet quiet _),
    turn_uncancelled cadence clock quiet uncancelled, concluded]
  refine ⟨rfl, ?_⟩
  unfold fetches shownBy
  simp [List.filter_map, Function.comp_def]

/-- The outcome of a whole run that is never cancelled, for every sequence of replies whose fetches
list no key twice. It ends with the first fetch that decides and not before: its end is the
conclusion of that fetch after the entries of the earlier ones. Without such a fetch it waits for a
reply to one more fetch when the replies are used up.

The clock of the process is no part of the replies: the run ends early exactly if a pause before
that fetch reaches past it. -/
theorem ofReplies_uncancelled (cadence : Cadence) (clock : Nat) (replies : List Reply)
    (uncancelled : ∀ reply ∈ replies, reply.cancels = false)
    (distinct : ∀ reply ∈ replies, reply.Distinct) :
    let earlier := replies.takeWhile Reply.passes
    let run := ofReplies cadence clock none replies
    if Lasts cadence clock earlier then
      run.fetches = earlier.length + 1 ∧
        match replies.dropWhile Reply.passes with
        | [] => run.ending = cancelled
        | last :: _ =>
          ∃ fetch, last.result = .ok fetch ∧ fetch.decides ∧
            run.ending = .concluded
              (fetch.conclusion (earlier.flatMap Reply.entries)
                (UInt32.ofNat (earlier.length + 1)))
    else run.ending = .clockEnded := by
  intro earlier run
  have parts : earlier ++ replies.dropWhile Reply.passes = replies :=
    List.takeWhile_append_dropWhile
  have mem : ∀ reply ∈ earlier, reply ∈ replies := (List.takeWhile_prefix _).subset
  have passes : ∀ reply ∈ earlier, reply.passes := fun reply hr =>
    List.all_eq_true.mp List.all_takeWhile reply hr
  have quiet : ∀ reply ∈ earlier, reply.cancels = false :=
    fun reply hr => uncancelled reply (mem reply hr)
  have whole : run = go cadence clock ⟨0, 0, [], none⟩ (earlier ++ replies.dropWhile Reply.passes) :=
    by rw [parts]; rfl
  rw [whole]
  by_cases lasts : Lasts cadence clock earlier
  · obtain ⟨ending, fetches⟩ := go_passing cadence clock ⟨0, 0, [], none⟩ earlier
      (replies.dropWhile Reply.passes) rfl quiet passes lasts
    have waits := State.cancel_past cadence ⟨0, 0, [], none⟩ earlier rfl
    rw [if_pos lasts, ending, fetches]
    cases hd : replies.dropWhile Reply.passes with
    | nil =>
      unfold go cancelledAt
      rw [waits]
      exact ⟨rfl, rfl⟩
    | cons last rest =>
      have hl : last ∈ replies := by rw [← parts, hd]; simp
      have stops : last.passes = false := by
        simpa [hd] using List.head?_dropWhile_not Reply.passes replies
      obtain ⟨fetch, hf, decides⟩ := Reply.passes_eq_false.mp stops
      have board := State.board_past cadence ⟨0, 0, [], none⟩ earlier
        (Board.showing_nil []).symm passes fun reply hr => distinct reply (mem reply hr)
      obtain ⟨ending, fetches⟩ := go_deciding cadence clock rest waits (uncancelled last hl) hf
        board (distinct last hl fetch hf) decides
      rw [State.polls_past, UInt32.zero_add, count_ofNat, List.nil_append] at ending
      rw [fetches]
      exact ⟨rfl, fetch, hf, decides, ending⟩
  · rw [if_neg lasts]
    exact go_late cadence clock _ earlier _ rfl quiet passes (by simpa using lasts)

/-- A failed fetch, a resource that vanishes, and a success that reports both. -/
theorem ofReplies_uncancelled_vanishing :
    let db : Resource := ⟨"i-1", "db", Steps.empty, some "running"⟩
    let web : Resource := ⟨"i-2", "web", Steps.empty, some "running"⟩
    let replies : List Reply := [.prompt (.error (.fetch "busy")),
      .prompt (.ok ⟨[db], some (.ofStatus "running")⟩),
      .prompt (.ok ⟨[web], some (.ofStatus "success")⟩)]
    (∀ reply ∈ replies, reply.cancels = false) ∧ (∀ reply ∈ replies, reply.Distinct) ∧
      (ofReplies ⟨10, 100⟩ 0 none replies).ending = .concluded (.ok ⟨some "success", .success, 3,
        [⟨"i-2", "web", .completed⟩, ⟨"i-1", "db", .completed⟩]⟩) := by
  intro db web replies
  have uncancelled : ∀ reply ∈ replies, reply.cancels = false := by decide
  have distinct : ∀ reply ∈ replies, reply.Distinct := by
    simp only [replies, List.forall_mem_cons, Reply.Distinct, Reply.prompt]
    refine ⟨nofun, ?_, ?_, nofun⟩ <;> rintro fetch ⟨⟩ <;> decide
  have run := ofReplies_uncancelled ⟨10, 100⟩ 0 replies uncancelled distinct
  obtain ⟨-, fetch, brings, -, ending⟩ := run
  cases brings
  exact ⟨uncancelled, distinct, ending⟩

/-! ## Prompt replies -/

theorem spent_prompt (cadence : Cadence) (replies : List Reply)
    (prompt : ∀ reply ∈ replies, reply.delay = 0) :
    spent cadence replies = replies.length * cadence.interval := by
  induction replies with
  | nil => exact (Nat.zero_mul _).symm
  | cons reply rest ih =>
    rw [List.forall_mem_cons] at prompt
    rw [spent_cons, ih prompt.2, prompt.1, List.length_cons, Nat.add_mul]
    omega

/-- How a run over prompt replies ends whose first deciding fetch is known. Fetches may list a key
several times, so nothing is said here about the report. -/
theorem ofReplies_prompt (cadence : Cadence) (replies : List Reply) {before : List (Option Fetch)}
    {fetch : Fetch} {later : List (Option Fetch)}
    (prompt : ∀ reply ∈ replies, reply.delay = 0 ∧ reply.cancels = false)
    (bring : replies.map Reply.brings = before ++ some fetch :: later)
    (undecided : ∀ other, some other ∈ before → other.decides = false) (decides : fetch.decides)
    (inTime : before.length * cadence.interval < clockEnd) :
    (ofReplies cadence 0 none replies).ending.Agrees fetch.succeeds := by
  obtain ⟨earlier, others, rfl, hb, ho⟩ := List.map_eq_append_iff.mp bring
  obtain ⟨last, rest, rfl, hl, -⟩ := List.map_eq_cons_iff.mp ho
  have passes : ∀ reply ∈ earlier, reply.passes := fun reply hr =>
    Reply.passes_of_brings fun other he => undecided other (hb ▸ he ▸ List.mem_map_of_mem hr)
  have quiet : ∀ reply ∈ earlier, reply.cancels = false :=
    fun reply hr => (prompt reply (List.mem_append_left _ hr)).2
  have lasts : Lasts cadence 0 earlier := by
    rw [← hb, List.length_map] at inTime
    refine .inr ?_
    rw [spent_prompt cadence earlier fun reply hr => (prompt reply (List.mem_append_left _ hr)).1]
    omega
  have waits := State.cancel_past cadence ⟨0, 0, [], none⟩ earlier rfl
  unfold ofReplies
  rw [(go_passing cadence 0 ⟨0, 0, [], none⟩ earlier (last :: rest) rfl quiet passes lasts).1,
    go_cons cadence 0 last rest (cancelledAt_of_quiet waits _),
    turn_uncancelled cadence 0 waits (prompt last (by simp)).2]
  generalize State.past cadence ⟨0, 0, [], none⟩ earlier = state
  have verdict := Applied.conclusion_ofFetch state.board (state.polls + 1) fetch
  rw [← applyResult_of_ok (Reply.result_of_brings hl)] at verdict
  revert verdict
  cases (applyResult state.board (state.polls + 1) last.result).conclusion with
  | none =>
    intro undecided
    exact absurd (decides.symm.trans undecided) nofun
  | some conclusion =>
    cases conclusion with
    | ok report => exact id
    | error error => exact And.right

end Run

end FleetControl
