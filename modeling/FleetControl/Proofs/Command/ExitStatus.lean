import FleetControl.Proofs.Command.Change
import FleetControl.Proofs.Fleet.Grouping
import FleetControl.Proofs.Poll.Uncancelled

/-!
# The exit status of a command that waits

Layer by layer: what is written, how a run is concluded, the command, the command line.

1. `Exits` is what each layer says of a result: it is a success or a failure, a success only if the
   workflow is one, and exactly then if the output takes whatever is written.
2. `exitCode_waiting` is the whole: the request for the change, the pages, the fetches and the run.
-/

namespace FleetControl

theorem Error.exitCode_ne_zero (e : Error) : e.exitCode ≠ 0 := by
  unfold exitCode
  split <;> decide

namespace Output

theorem writeLines_unbounded {sink : Text.Sink} (lines : List String) (h : sink.room = none) :
    (writeLines sink lines).2 = .ok () ∧ (writeLines sink lines).1.room = none := by
  unfold writeLines
  rw [Text.Sink.writeAll_unbounded _ h]
  exact ⟨rfl, h⟩

theorem write_unbounded {sink : Text.Sink} (output : Output) (format : Format)
    (h : sink.room = none) :
    (output.write format sink).2 = .ok () ∧ (output.write format sink).1.room = none := by
  cases format with
  | table => exact writeLines_unbounded _ h
  | json =>
    unfold write
    dsimp only
    rw [Text.Sink.write_unbounded output.toJson.pretty h]
    exact writeLines_unbounded [""] h

theorem exitCode_writeLines {sink : Text.Sink} {lines : List String} {e : Error}
    (h : (writeLines sink lines).2 = .error e) : e.exitCode = 1 := by
  unfold writeLines at h
  split at h
  · cases h
  · cases h
    rfl

theorem exitCode_write {sink : Text.Sink} {output : Output} {format : Format} {e : Error}
    (h : (output.write format sink).2 = .error e) : e.exitCode = 1 := by
  cases format with
  | table => exact exitCode_writeLines h
  | json =>
    unfold write at h
    dsimp only at h
    split at h
    · cases h
      rfl
    · exact exitCode_writeLines h

end Output

namespace Job

/-- Printing gives a result and changes nothing but the output: an output without bound stays so and
takes everything, and one that refuses is a plain failure. -/
structure Prints (job : Job Unit) : Prop where
  frame : ∀ session, ∃ out, (job.runIn session).2 = { session with out }
  unbounded : ∀ session : Session, session.out.room = none →
    (job.runIn session).1 = .ok () ∧ (job.runIn session).2.out.room = none
  refused : ∀ session e, (job.runIn session).1 = .error e → e.exitCode = 1

theorem prints_print (format : Format) (output : Output) : Prints (print format output) where
  frame session := ⟨_, congrArg Prod.snd (runIn_write _ session)⟩
  unbounded session free := by
    unfold print
    rw [runIn_write]
    exact Output.write_unbounded output format free
  refused session e h := by
    unfold print at h
    rw [runIn_write] at h
    exact Output.exitCode_write h

theorem prints_printLine (line : String) : Prints (printLine line) where
  frame session := ⟨_, congrArg Prod.snd (runIn_write _ session)⟩
  unbounded session free := by
    unfold printLine
    rw [runIn_write]
    exact Output.writeLines_unbounded [line] free
  refused session e h := by
    unfold printLine at h
    rw [runIn_write] at h
    exact Output.exitCode_writeLines h

end Job

/-! ## Following a workflow -/

/-- What the result of following a workflow says about it, with the room of the output before. -/
structure Exits (result : Except Error Unit) (room : Option Nat) (succeeds : Bool) : Prop where
  small : (Completion.ran result).exitCode = 0 ∨ (Completion.ran result).exitCode = 1
  sound : (Completion.ran result).exitCode = 0 → succeeds
  complete : room = none → succeeds → (Completion.ran result).exitCode = 0

namespace Exits

theorem of_error {e : Error} {room : Option Nat} {succeeds : Bool} (h : e.exitCode = 1)
    (refused : room = none → succeeds = false) : Exits (.error e) room succeeds where
  small := .inr h
  sound := fun zero => absurd (h.symm.trans zero) nofun
  complete := fun free good => absurd (good.symm.trans (refused free)) nofun

theorem of_ok {room : Option Nat} {succeeds : Bool} (good : succeeds) :
    Exits (.ok ()) room succeeds where
  small := .inl rfl
  sound := fun _ => good
  complete := fun _ _ => rfl

end Exits

theorem Exits.of_print {job : Job Unit} (prints : job.Prints) {session : Session}
    {succeeds : Bool} (good : succeeds) :
    Exits (job.runIn session).1 session.out.room succeeds := by
  cases hr : (job.runIn session).1 with
  | ok _ => exact .of_ok good
  | error e =>
    refine .of_error (prints.refused session e hr) fun free => ?_
    rw [(prints.unbounded session free).1] at hr
    cases hr

/-- Printing first changes nothing about the status of what comes after it, if it gets there. -/
theorem Exits.after_print {first : Job Unit} (prints : first.Prints) {next : Job Unit}
    {session : Session} {succeeds : Bool}
    (h : ∀ out, Exits (next.runIn { session with out }).1 out.room succeeds) :
    Exits ((first >>= fun _ => next).runIn session).1 session.out.room succeeds := by
  obtain ⟨out, after⟩ := prints.frame session
  have unbounded := prints.unbounded session
  have refused := prints.refused session
  rw [Job.runIn_bind]
  cases hp : first.runIn session with
  | mk result later =>
    rw [hp] at after unbounded refused
    cases after
    cases result with
    | error e =>
      exact .of_error (refused e rfl) fun free => absurd (unbounded free).1 nofun
    | ok _ =>
      obtain ⟨small, sound, complete⟩ := h out
      exact ⟨small, sound, fun free => complete (unbounded free).2⟩

namespace Follow

/-- The end of a run is concluded with the status that its last fetch calls for. -/
theorem exits_conclude (query : Query) (format : Format) {ending : Ending} {succeeds : Bool}
    (session : Session) (h : ending.Agrees succeeds) :
    Exits ((conclude query format ending).runIn session).1 session.out.room succeeds := by
  cases ending with
  | clockEnded => exact h.elim
  | concluded conclusion =>
    cases conclusion with
    | ok report =>
      exact .of_print (Job.prints_print format _) h
    | error e =>
      obtain ⟨fails, failure⟩ := h
      have throws : ∀ later : Session,
          Exits ((throw (.workflow e) : Job Unit).runIn later).1 later.out.room succeeds := by
        intro later
        rw [Job.runIn_throw]
        refine .of_error ?_ fun _ => fails
        cases e <;> first | rfl | exact absurd rfl failure
      unfold conclude
      dsimp only
      split
      · exact .after_print (Job.prints_printLine _) fun out => throws { session with out }
      · exact throws session

theorem ending_runIn (client : Client) (query : Query) (format : Format) (interval : Nat)
    (session : Session) :
    (runIn client query format interval session).1 =
      (Run.ofReplies (.ofInterval interval) 0 none
        ((Fetch.gather client query session.answers).filterMap Collected.reply?)).ending := by
  unfold runIn ofFetches
  rfl

theorem out_runIn (client : Client) (query : Query) (format : Format) (interval : Nat)
    (session : Session) : (runIn client query format interval session).2.out = session.out := by
  unfold runIn ofFetches
  rfl

theorem runIn_run (client : Client) (query : Query) (format : Format) (interval : Nat)
    (session : Session) :
    (run client query format interval).runIn session =
      (.ok (runIn client query format interval session).1,
        (runIn client query format interval session).2) := by
  unfold run
  rfl

/-- The answers that a session has left decide the status of following a workflow. -/
theorem exits_job {client : Client} {query : Query} (format : Format) (interval : Nat)
    (session : Session) {before later : List (Option Fetch)} {fetch : Fetch}
    (sendable : ∀ token, (client.request query.scope (Operation.ofQuery query token)).isOk)
    (groups : Fetch.grouped session.answers = before ++ some fetch :: later)
    (undecided : ∀ other, some other ∈ before → other.decides = false) (decides : fetch.decides)
    (inTime : before.length * interval < clockEnd) :
    Exits ((job client query format interval).runIn session).1 session.out.room
      fetch.succeeds := by
  -- the answers are there when they are asked for, so only the pauses take time
  have prompt : ∀ reply ∈ (Fetch.gather client query session.answers).filterMap Collected.reply?,
      reply.delay = 0 ∧ reply.cancels = false := by
    intro reply hr
    obtain ⟨collected, -, hc⟩ := List.mem_filterMap.mp hr
    obtain ⟨delay, cancels, -⟩ := Fetch.reply?_spec hc
    exact ⟨delay, cancels⟩
  have ends := Run.ofReplies_prompt (.ofInterval interval) _ prompt
    ((Fetch.grouped_gather sendable session.answers).trans groups) undecided decides inTime
  rw [← ending_runIn client query format interval session] at ends
  unfold job
  rw [Job.runIn_bind, runIn_run, ← out_runIn client query format interval session]
  exact exits_conclude query format _ ends

end Follow

/-! ## The command -/

theorem FleetContext.exits_acknowledge {context : FleetContext} (message : Message) (id : String)
    (action : Action) {waiting : Waiting} (session : Session) {before later : List (Option Fetch)}
    {fetch : Fetch} (waits : waiting.wait)
    (sendable : ∀ operation, (context.request operation).isOk)
    (groups : Fetch.grouped session.answers = before ++ some fetch :: later)
    (undecided : ∀ other, some other ∈ before → other.decides = false) (decides : fetch.decides)
    (inTime : before.length * intervalOfSecs waiting.seconds context.interval < clockEnd) :
    Exits ((context.acknowledge message id action waiting).runIn session).1 session.out.room
      fetch.succeeds := by
  have follows : ∀ out, Exits ((context.follow id action waiting.seconds).runIn
      { session with out }).1 out.room fetch.succeeds := fun out =>
    Follow.exits_job context.format _ { session with out } (fun token => sendable _) groups
      undecided decides inTime
  unfold acknowledge
  rw [waits]
  simp only [Bool.not_true, Bool.false_or, if_true]
  -- as JSON the acknowledgement is left out, so that the summary is the only document
  cases context.format.isJson with
  | true =>
    exact follows session.out
  | false =>
    exact .after_print (Job.prints_print context.format _) follows

/-! ## The command line -/

namespace Completion

theorem ofWords_change {environment : Environment} {words : List String} {session : Session}
    {invocation : Invocation} {settings : Settings} {context : FleetContext} {change : Change}
    (parsed : Invocation.parse environment words = .ok invocation)
    (loaded : Settings.load environment session.files invocation.globals = .ok settings)
    (placed : settings.context invocation.globals.format = .ok context)
    (changes : invocation.command.change? = some change) :
    ∃ message, ofWords environment words session =
      (.ran ((change.job context message).runIn session).1,
        ((change.job context message).runIn session).2) := by
  obtain ⟨message, h⟩ := Invocation.runIn_job loaded placed changes
  refine ⟨message, ?_⟩
  unfold ofWords
  rw [parsed]
  dsimp only
  rw [h]

/-- The exit status of a command that changes something and waits for its workflow, for every
command line, settings, answers of the API and output.

If its request cannot be sent, or the API refuses it or gives no id where the command needs one, the
command exits with 1 and sends nothing more. Else the answers after the first are fetches, page by
page; those that failed are skipped, and with `fetch` the first that decides, the status is 0 or 1,
and 0 only if `fetch` is a success. An output that takes whatever is written to it makes that an
equivalence. What the API answers after the deciding fetch does not count. -/
theorem exitCode_waiting {environment : Environment} {words : List String} {session : Session}
    {invocation : Invocation} {settings : Settings} {context : FleetContext} {change : Change}
    {first : Answer} {answers more : List Answer}
    (parsed : Invocation.parse environment words = .ok invocation)
    (loaded : Settings.load environment session.files invocation.globals = .ok settings)
    (placed : settings.context invocation.globals.format = .ok context)
    (changes : invocation.command.change? = some change) (waits : change.waiting.wait)
    (answered : session.answers = first :: (answers ++ more)) :
    let completion := (ofWords environment words session).1
    let sent := (ofWords environment words session).2.sent
    match context.request change.operation, change.answered? first with
    | .error _, _ => completion.exitCode = 1 ∧ sent = session.sent
    | .ok request, none => completion.exitCode = 1 ∧ sent = session.sent ++ [request]
    | .ok _, some _ =>
      ∀ before fetch later, Fetch.grouped answers = before ++ some fetch :: later →
        (∀ other, some other ∈ before → other.decides = false) → fetch.decides →
        before.length * intervalOfSecs change.waiting.seconds context.interval < clockEnd →
        (completion.exitCode = 0 ∨ completion.exitCode = 1) ∧
          (completion.exitCode = 0 → fetch.succeeds) ∧
          (session.out.room = none → (completion.exitCode = 0 ↔ fetch.succeeds)) := by
  intro completion sent
  obtain ⟨message, run⟩ := ofWords_change parsed loaded placed changes
  cases prepared : context.request change.operation with
  | error fault =>
    rw [Change.runIn_unsendable message prepared] at run
    dsimp only [completion, sent]
    rw [run]
    exact ⟨rfl, rfl⟩
  | ok request =>
    cases ha : change.answered? first with
    | none =>
      obtain ⟨e, refused, failure⟩ := Change.runIn_refused message prepared answered ha
      rw [refused] at run
      dsimp only [completion, sent]
      rw [run]
      exact ⟨failure, rfl⟩
    | some id =>
      intro before fetch later groups undecided decides inTime
      -- the answers after the deciding fetch only add fetches at the end
      obtain ⟨others, longer⟩ := Fetch.prefix_groupedFrom none [] answers more
      have groups : Fetch.grouped (answers ++ more) = before ++ some fetch :: (later ++ others) := by
        rw [← show _ = Fetch.grouped (answers ++ more) from longer,
          show Fetch.groupedFrom none [] answers = _ from groups, List.append_assoc]
        rfl
      -- the address and the token let every request out if they let out the first
      have sendable : ∀ operation, (context.request operation).isOk := by
        intro operation
        have same :=
          context.client.isOk_request context.scope context.scope change.operation operation
        rw [show context.client.request context.scope change.operation = .ok request from prepared]
          at same
        exact same.symm
      have exits := FleetContext.exits_acknowledge (message id) id change.action
        { session with sent := session.sent ++ [request], answers := answers ++ more } waits sendable
        groups undecided decides inTime
      rw [← Change.runIn_answered message prepared answered ha] at exits
      rw [show completion = _ from congrArg Prod.fst run]
      exact ⟨exits.small, exits.sound, fun free => ⟨exits.sound, exits.complete free⟩⟩

/-- A deletion that waits. -/
def deletion : List String := ["--config", "c", "instance", "delete", "i-1", "--wait"]

def deletionFiles : Files :=
  ⟨[(Path.ofString "c", .file (Text.utf8
    "api_url = \"http://a\"\ntoken = \"t\"\nservice_id = \"s\"\nenvironment_id = \"e\"\n") false)]⟩

/-- A deletion whose first fetch fails and whose second finds the workflow a success. -/
theorem exitCode_waiting_delete :
    let environment : Environment := ⟨[("HOME", "/h")], none⟩
    let answers : List Answer := [.answered 500 "",
      .answered 200 "\x7b\"workflowInfo\":\x7b\"status\":\"success\"\x7d\x7d"]
    let session := Session.start (.answered 200 "" :: answers) deletionFiles .unbounded
    (Fetch.grouped answers).map (Option.map fun fetch => (fetch.decides, fetch.succeeds)) =
        [none, some (true, true)] ∧
      (ofWords environment deletion session).1.exitCode = 0 := by
  intro environment answers session
  have groups : (Fetch.grouped answers).map
      (Option.map fun fetch => (fetch.decides, fetch.succeeds)) = [none, some (true, true)] := by
    decide +kernel
  have parsed : Invocation.parse environment deletion =
      .ok ⟨⟨none, none, none, .table, some "c", false⟩,
        .onInstances (.delete "i-1" ⟨true, none⟩)⟩ := by
    decide +kernel
  have loaded : Settings.load environment deletionFiles
      ⟨none, none, none, .table, some "c", false⟩ =
      .ok ⟨"http://a", some "t", some "s", some "e", 10000, "c"⟩ := by
    decide +kernel
  obtain ⟨context, placed, interval, sendable⟩ : ∃ context,
      Settings.context ⟨"http://a", some "t", some "s", some "e", 10000, "c"⟩ .table = .ok context ∧
        context.interval = 10000 ∧ (context.request (.deleteInstance "i-1")).isOk :=
    ⟨⟨⟨"http://a", some "t"⟩, ⟨"s", "e"⟩, .table, 10000⟩, by decide +kernel⟩
  refine ⟨groups, ?_⟩
  clear_value answers
  obtain ⟨failed, others, fetched, hf, ho⟩ := List.map_eq_cons_iff.mp groups
  obtain ⟨last, later, hg, hl, hn⟩ := List.map_eq_cons_iff.mp ho
  obtain ⟨fetch, rfl, verdict⟩ := Option.map_eq_some_iff.mp hl
  obtain ⟨decides, succeeds⟩ := Prod.mk.inj verdict
  obtain rfl := Option.map_eq_none_iff.mp hf
  subst hg
  have status := @exitCode_waiting environment deletion session _ _ context
    ⟨.deleteInstance "i-1", .delete, some "i-1", ⟨true, none⟩⟩ (.answered 200 "") answers []
    parsed loaded placed rfl rfl (congrArg (Answer.answered 200 "" :: ·) (List.append_nil _).symm)
  dsimp only at status
  cases prepared : context.request (.deleteInstance "i-1") with
  | error fault =>
    rw [prepared] at sendable
    cases sendable
  | ok request =>
    rw [prepared] at status
    have undecided : ∀ other : Fetch, some other ∈ [none] → other.decides = false := by
      rintro other (_ | ⟨_, ⟨⟩⟩)
    have inTime : 1 * context.interval < clockEnd := by
      rw [interval]
      decide
    exact ((status [none] fetch later fetched undecided decides inTime).2.2 rfl).mpr succeeds

/-- An output that takes the acknowledgement but not the result makes a success a failure. -/
theorem exitCode_waiting_full :
    let answers : List Answer :=
      [.answered 200 "\x7b\"workflowInfo\":\x7b\"status\":\"success\"\x7d\x7d"]
    let session := Session.start (.answered 200 "" :: answers) deletionFiles (.bounded 36)
    (Fetch.grouped answers).map (Option.map fun fetch => (fetch.decides, fetch.succeeds)) =
        [some (true, true)] ∧
      (ofWords ⟨[("HOME", "/h")], none⟩ deletion session).1.exitCode = 1 :=
  ⟨by decide +kernel, by decide +kernel⟩

end Completion

end FleetControl
