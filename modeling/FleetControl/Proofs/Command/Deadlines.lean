import FleetControl.Proofs.Command.ExitStatus
import FleetControl.Proofs.Poll.Pacing

/-!
# Pauses that the clock does not reach

The end of a pause is counted from the moment a result is applied, and the clock of a process ends
after `2 ^ 63` seconds. The number of seconds between polls is any number of 64 bits, so a pause may
end later than that; the process is then aborted.

1. `deadline?_eq_none_iff` says which pauses end too late, and `forall_late_iff` which intervals are
   too long for every pause.
2. `Run.Pauses` says that a run gets as far as a pause. `Run.ofReplies_clockEnded_iff`: a run is
   aborted exactly if it gets to a pause that ends too late, and it is in the first of them.
3. `Follow.job_clockEnded_iff`: a command that follows a workflow is aborted exactly if its run is.
   `FleetContext.follow_clockEnded_iff` puts these together, from the settings on.
-/

namespace FleetControl

/-! ## Deadlines -/

theorem deadline?_eq_none_iff {now interval : Nat} :
    deadline? now interval = none ↔ clockEnd ≤ now + interval := by
  unfold deadline?
  split
  · next inTime => exact iff_of_false nofun (Nat.not_le.mpr inTime)
  · next late => exact iff_of_true rfl (Nat.le_of_not_lt late)

/-- The intervals in seconds that are too long at any time. -/
theorem forall_late_iff {seconds : Nat} :
    (∀ now, deadline? now (seconds * 1000) = none) ↔ 2 ^ 63 ≤ seconds := by
  have bound : clockEnd = 2 ^ 63 * 1000 := rfl
  simp only [deadline?_eq_none_iff, bound]
  constructor
  · intro late
    have first := late 0
    omega
  · intro long now
    omega

/-- The seconds between polls: those of the command line, else those of the settings, else ten.
None at all count as not given. -/
def secondsBetween (given configured : Option Nat) : Nat :=
  (given.filter (0 < ·) <|> configured.filter (0 < ·)).getD 10

theorem intervalOfSecs_eq (secs : Option Nat) (default : Nat) :
    intervalOfSecs secs default = ((secs.filter (0 < ·)).map (· * 1000)).getD default := by
  match secs with
  | none => rfl
  | some 0 => rfl
  | some (n + 1) => rfl

theorem intervalOfSecs_intervalOfSecs (given configured : Option Nat) :
    intervalOfSecs given (intervalOfSecs configured defaultInterval) =
      secondsBetween given configured * 1000 := by
  rw [intervalOfSecs_eq, intervalOfSecs_eq]
  unfold secondsBetween
  cases given.filter (0 < ·) with
  | some seconds => rfl
  | none => cases configured.filter (0 < ·) <;> rfl

/-! ## Runs -/

namespace Run

open Timeline (arrived)

/-- Whether a run gets to the pause after the reply to fetch `n`, its first one being fetch `0`, for
all that the clock of the process knows: this reply and those before it decide nothing, and the run
is not cancelled until it arrives. It may be cancelled as it arrives. -/
structure Pauses (interval : Nat) (cancel : Option Nat) (replies : List Reply) (n : Nat) : Prop where
  inside : n < replies.length
  passes : ∀ reply ∈ replies.take (n + 1), reply.passes
  quiet : ∀ reply ∈ replies.take n, reply.cancels = false
  awake : cancelledAt cancel (arrived interval replies n) = false

/-- Whether the pause after the reply to fetch `n` ends past the clock. -/
def Late (interval clock : Nat) (replies : List Reply) (n : Nat) : Prop :=
  deadline? (clock + arrived interval replies n) interval = none

instance (interval clock : Nat) (replies : List Reply) (n : Nat) :
    Decidable (Late interval clock replies n) :=
  inferInstanceAs (Decidable (_ = _))

/-- A run that gets to a pause that ends too late is aborted, there or earlier. -/
theorem go_late_pause (cadence : Cadence) (clock : Nat) (state : State) {earlier : List Reply}
    {reply : Reply} (rest : List Reply)
    (gets : ∀ other ∈ earlier, other.passes ∧ other.cancels = false) (passes : reply.passes)
    (awake : cancelledAt state.cancel (state.time + spent cadence earlier + reply.delay) = false)
    (late : clockEnd ≤
      clock + (state.time + spent cadence earlier + reply.delay) + cadence.interval) :
    (go cadence clock state (earlier ++ reply :: rest)).ending = .clockEnded ∧
      (go cadence clock state (earlier ++ reply :: rest)).fetches ≤ earlier.length + 1 := by
  -- the state is what the pauses before left; the sums of `awake` and `late` lose their first term
  induction earlier generalizing state with
  | nil =>
    have turned : Turned cadence clock state reply _ := .clockEnded awake passes late
    have started := cancelledAt_of_le awake (Nat.le_add_right state.time reply.delay)
    rw [List.nil_append, turned.go_stop started]
    exact ⟨rfl, Nat.le_of_eq turned.fetches_stop⟩
  | cons first earlier ih =>
    rw [List.forall_mem_cons] at gets
    rw [spent_cons] at awake late
    have next : (state.next cadence first).time = state.time + first.delay + cadence.interval := rfl
    have started := cancelledAt_of_le awake (show state.time ≤ _ by omega)
    rw [List.cons_append]
    by_cases inTime : clock + (state.time + first.delay) + cadence.interval < clockEnd
    · have turned : Turned cadence clock state first _ :=
        .continued gets.1.1 inTime gets.1.2 (cancelledAt_of_le awake (by omega))
      have later := ih (state.next cadence first) gets.2
        (by rw [next]; exact cancelledAt_of_le awake (by omega)) (by rw [next]; omega)
      rw [turned.go_next started, shownBy, fetches_after_turn]
      exact ⟨later.1, Nat.succ_le_succ later.2⟩
    · have arrives := cancelledAt_of_le awake (show state.time + first.delay ≤ _ by omega)
      have turned : Turned cadence clock state first _ :=
        .clockEnded arrives gets.1.1 (Nat.le_of_not_lt inTime)
      rw [turned.go_stop started]
      exact ⟨rfl, Nat.le_trans (Nat.le_of_eq turned.fetches_stop) (Nat.le_add_left 1 _)⟩

section Whole

variable (cadence : Cadence) (clock : Nat) (cancel : Option Nat) (replies : List Reply)

theorem arrived_eq_spent {n : Nat} {reply : Reply} (here : replies[n]? = some reply) :
    arrived cadence.interval replies n = spent cadence (replies.take n) + reply.delay := by
  have within : n ≤ replies.length := Nat.le_of_lt (List.getElem?_eq_some_iff.mp here).1
  rw [Timeline.arrived_eq _ here, Timeline.spent_eq, List.length_take_of_le within]
  rfl

theorem ofReplies_of_late {n : Nat} (pauses : Pauses cadence.interval cancel replies n)
    (late : Late cadence.interval clock replies n) :
    (ofReplies cadence clock cancel replies).ending = .clockEnded ∧
      (ofReplies cadence clock cancel replies).fetches ≤ n + 1 := by
  have inside := pauses.inside
  have here : replies[n]? = some replies[n] := List.getElem?_eq_getElem inside
  have length : (replies.take n).length = n := List.length_take_of_le (Nat.le_of_lt inside)
  have parts : replies.take n ++ replies[n] :: replies.drop (n + 1) = replies := by
    rw [← List.drop_eq_getElem_cons inside, List.take_append_drop]
  have first : replies.take (n + 1) = replies.take n ++ [replies[n]] := by
    rw [List.take_add_one, here]
    rfl
  have passes := pauses.passes
  rw [first, List.forall_mem_append, List.forall_mem_singleton] at passes
  have awake := pauses.awake
  rw [Late, deadline?_eq_none_iff] at late
  rw [arrived_eq_spent cadence replies here] at awake late
  have ends := go_late_pause cadence clock ⟨0, 0, [], cancel⟩ (replies.drop (n + 1))
    (fun other ho => ⟨passes.1 other ho, pauses.quiet other ho⟩) passes.2
    (by simpa only [Nat.zero_add] using awake) (by simpa only [Nat.zero_add] using late)
  rwa [parts, length] at ends

theorem late_of_clockEnded (aborted : (ofReplies cadence clock cancel replies).ending = .clockEnded) :
    ∃ n, Pauses cadence.interval cancel replies n ∧ Late cadence.interval clock replies n ∧
      (ofReplies cadence clock cancel replies).fetches = n + 1 ∧
      (ofReplies cadence clock cancel replies).elapsed = arrived cadence.interval replies n := by
  unfold ofReplies at aborted ⊢
  obtain ⟨-, whole⟩ | ⟨n, last, count, whole, passes, ⟨-, pending⟩ | ⟨reply, here, turned⟩⟩ :=
    go_last cadence clock ⟨0, 0, [], cancel⟩ replies
  · rw [whole] at aborted
    cases aborted
  · rw [whole, pending] at aborted
    cases aborted
  · obtain ⟨-, -, before⟩ := go_advance cadence clock (Nat.lt_of_lt_of_eq (Nat.lt_succ_self n)
      count.symm)
    have inside : n < replies.length := (List.getElem?_eq_some_iff.mp here).1
    have arrives := arrived_eq_spent cadence replies here
    rw [whole] at aborted
    cases turned with
    | abandoned moment token early => cases aborted
    | concluded conclusion awake decided => cases aborted
    | returned awake passes inTime cancels => cases aborted
    | interrupted passes inTime quiet moment token later within => cases aborted
    | clockEnded awake ends late =>
      rw [State.time_past, Nat.zero_add, ← arrives] at late
      rw [State.time_past, State.token_past, Nat.zero_add, ← arrives] at awake
      refine ⟨n, ⟨inside, fun other ho => ?_, fun other ho => (before other ho).2, awake⟩,
        deadline?_eq_none_iff.mpr late, count, ?_⟩
      · rw [List.take_add_one, here] at ho
        rcases List.mem_append.mp ho with earlier | final
        · exact passes other earlier
        · rw [List.mem_singleton.mp final]
          exact ends
      · rw [whole, arrives]
        exact congrArg (· + reply.delay) ((State.time_past _ _ _).trans (Nat.zero_add _))

/-- A run is aborted exactly if it gets to a pause that ends too late. -/
theorem ofReplies_clockEnded_iff :
    (ofReplies cadence clock cancel replies).ending = .clockEnded ↔
      ∃ n, Pauses cadence.interval cancel replies n ∧ Late cadence.interval clock replies n := by
  constructor
  · intro aborted
    obtain ⟨n, pauses, late, -⟩ := late_of_clockEnded cadence clock cancel replies aborted
    exact ⟨n, pauses, late⟩
  · rintro ⟨n, pauses, late⟩
    exact (ofReplies_of_late cadence clock cancel replies pauses late).1

/-- The first late pause is the one in which a run is aborted. -/
theorem ofReplies_first_late {n : Nat} (pauses : Pauses cadence.interval cancel replies n)
    (late : Late cadence.interval clock replies n)
    (first : ∀ m < n, ¬ Late cadence.interval clock replies m) :
    (ofReplies cadence clock cancel replies).fetches = n + 1 ∧
      (ofReplies cadence clock cancel replies).elapsed = arrived cadence.interval replies n := by
  obtain ⟨aborted, bound⟩ := ofReplies_of_late cadence clock cancel replies pauses late
  obtain ⟨m, -, also, count, elapsed⟩ := late_of_clockEnded cadence clock cancel replies aborted
  have same : m = n := by
    have least : ¬ m < n := fun less => first m less also
    omega
  rw [← same]
  exact ⟨count, elapsed⟩

end Whole

end Run

/-! ## Commands -/

namespace Follow

theorem prints_ne_clockEnded {job : Job Unit} (prints : job.Prints) (session : Session) :
    (job.runIn session).1 ≠ .error .clockEnded := by
  intro aborted
  exact absurd (prints.refused session _ aborted) (by decide)

theorem conclude_clockEnded_iff (query : Query) (format : Format) (ending : Ending)
    (session : Session) :
    ((conclude query format ending).runIn session).1 = .error .clockEnded ↔
      ending = .clockEnded := by
  cases ending with
  | clockEnded => exact iff_of_true rfl rfl
  | concluded conclusion =>
    refine iff_of_false ?_ nofun
    cases conclusion with
    | ok report => exact prints_ne_clockEnded (Job.prints_print format _) session
    | error e =>
      unfold conclude
      dsimp only
      split
      · have printed := prints_ne_clockEnded (Job.prints_printLine
          ("✗ " ++ query.action.text ++ " of " ++ query.instanceId ++ " failed: " ++ e.message))
          session
        rw [Job.runIn_bind]
        cases hp : (Job.printLine _).runIn session with
        | mk result later =>
          rw [hp] at printed
          cases result with
          | ok _ => nofun
          | error refusal => exact printed
      · nofun

theorem job_clockEnded_iff (client : Client) (query : Query) (format : Format) (interval : Nat)
    (session : Session) :
    ((job client query format interval).runIn session).1 = .error .clockEnded ↔
      (Run.ofReplies (.ofInterval interval) 0 none
        ((Fetch.gather client query session.answers).filterMap Collected.reply?)).ending =
          .clockEnded := by
  rw [← ending_runIn client query format interval session]
  unfold job
  rw [Job.runIn_bind, runIn_run]
  exact conclude_clockEnded_iff query format _ _

end Follow

namespace FleetContext

/-- What becomes of the seconds between polls, for every number of them on the command line and in
the settings.

Every pause of the run lasts as long as they say; with `2 ^ 63` of them or more, and only then, it
ends past the clock at any time. A run, whenever the clock began, whenever it is cancelled and
whatever the replies, is aborted exactly if it gets to a pause that ends past the clock, and it is
aborted in the first one, as the reply before it arrives. A command is aborted exactly if its run
is. -/
theorem follow_clockEnded_iff {globals : Globals} {config : Config} {path : String}
    {format : Format} {context : FleetContext}
    (placed : (Settings.merge globals config path).context format = .ok context)
    (seconds : Option Nat) :
    let given := secondsBetween seconds config.pollSeconds
    let cadence := Cadence.ofInterval (intervalOfSecs seconds context.interval)
    cadence.interval = given * 1000 ∧
      ((∀ now, deadline? now cadence.interval = none) ↔ 2 ^ 63 ≤ given) ∧
      (∀ clock cancel replies,
        let run := Run.ofReplies cadence clock cancel replies
        (run.ending = .clockEnded ↔ ∃ n, Run.Pauses cadence.interval cancel replies n ∧
            Run.Late cadence.interval clock replies n) ∧
          ∀ n, Run.Pauses cadence.interval cancel replies n →
            Run.Late cadence.interval clock replies n →
            (∀ m < n, ¬ Run.Late cadence.interval clock replies m) →
            run.fetches = n + 1 ∧
              run.elapsed = Timeline.arrived cadence.interval replies n) ∧
      ∀ instanceId action session,
        ((context.follow instanceId action seconds).runIn session).1 = .error .clockEnded ↔
          (Run.ofReplies cadence 0 none ((Fetch.gather context.client
            (.following context.scope instanceId action) session.answers).filterMap
              Collected.reply?)).ending = .clockEnded := by
  intro given cadence
  have travels : cadence.interval = given * 1000 := by
    calc cadence.interval = intervalOfSecs seconds context.interval := rfl
      _ = intervalOfSecs seconds (intervalOfSecs config.pollSeconds defaultInterval) := by
        rw [(Settings.of_context placed).2]
        rfl
      _ = given * 1000 := intervalOfSecs_intervalOfSecs seconds config.pollSeconds
  refine ⟨travels, travels ▸ forall_late_iff, ?_, ?_⟩
  · intro clock cancel replies run
    exact ⟨Run.ofReplies_clockEnded_iff cadence clock cancel replies,
      fun n => Run.ofReplies_first_late cadence clock cancel replies⟩
  · intro instanceId action session
    exact Follow.job_clockEnded_iff _ _ _ _ session

/-- Settings with the largest number of 64 bits abort every run that does not decide at once; ten
seconds on the command line win over them. -/
theorem follow_clockEnded_iff_largest :
    let config : Config := ⟨some "http://a", some "t", some "s", some "e", some 18446744073709551615⟩
    let replies : List Reply := [.prompt (.ok ⟨[], some (.ofStatus "running")⟩)]
    ∃ context,
      (Settings.merge ⟨none, none, none, .table, none, false⟩ config "c").context .table =
          .ok context ∧
        (∀ clock, (Run.ofReplies (.ofInterval (intervalOfSecs none context.interval))
          clock none replies).ending = .clockEnded) ∧
        (Run.ofReplies (.ofInterval (intervalOfSecs (some 10) context.interval))
          0 none replies).ending ≠ .clockEnded := by
  intro config replies
  have placed : (Settings.merge ⟨none, none, none, .table, none, false⟩ config "c").context .table =
      .ok ⟨⟨"http://a", some "t"⟩, ⟨"s", "e"⟩, .table, 18446744073709551615000⟩ := by
    decide +kernel
  have pauses (interval : Nat) : Run.Pauses interval none replies 0 :=
    ⟨by decide, by decide, nofun, rfl⟩
  obtain ⟨-, always, runs, -⟩ := @follow_clockEnded_iff _ config "c" .table _ placed none
  obtain ⟨interval, -, others, -⟩ := @follow_clockEnded_iff _ config "c" .table _ placed (some 10)
  refine ⟨_, placed, fun clock => ?_, fun aborted => ?_⟩
  · exact (runs clock none replies).1.mpr ⟨0, pauses _, always.mpr (by decide) _⟩
  · obtain ⟨n, ⟨inside, -, -, -⟩, late⟩ := (others 0 none replies).1.mp aborted
    rw [interval, Nat.lt_one_iff.mp inside] at late
    exact absurd late (by decide)

end FleetContext

namespace Completion

/-- The largest number of seconds that the command line takes aborts a deletion after it was sent,
at a workflow that only runs on; with ten seconds the same answers are a success. -/
theorem exitCode_overlong :
    let answers : List Answer := [.answered 200 "",
      .answered 200 "\x7b\"workflowInfo\":\x7b\"status\":\"running\"\x7d\x7d",
      .answered 200 "\x7b\"workflowInfo\":\x7b\"status\":\"success\"\x7d\x7d"]
    let session := Session.start answers deletionFiles .unbounded
    let run (seconds : String) :=
      ofWords ⟨[("HOME", "/h")], none⟩ (deletion ++ ["--poll-interval", seconds]) session
    ((run "18446744073709551615").1.exitCode, (run "18446744073709551615").2.sent.length) = (101, 2) ∧
      ((run "10").1.exitCode, (run "10").2.sent.length) = (0, 3) :=
  ⟨by decide +kernel, by decide +kernel⟩

end Completion

end FleetControl
