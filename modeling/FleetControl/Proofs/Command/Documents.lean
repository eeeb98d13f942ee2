import FleetControl.Proofs.Command.Traceless
import FleetControl.Proofs.Json.Rereading

/-!
# One document for programs

For programs a command prints one JSON document as the last thing that it does, or nothing.

What is proved:

1. `Job.Documents.print`: printing a document writes all of it, or as much as there is room for.
2. `Job.Documents` is what all commands have in common: what comes before the document is quiet
   (`Job.Quiet`), so that an error there leaves the output as it was (`Job.Documents.after`).
3. `Follow.documents_job`, `FleetContext.documents_acknowledge`: a command that follows a workflow
   prints its summary in place of the acknowledgement.
4. `Completion.document_ofWords`: the same of a whole command line.
-/

namespace FleetControl
namespace Output

/-- The document for programs, with its end. -/
def document (output : Output) : String :=
  output.toJson.pretty ++ "\n"

theorem parse_document {output : Output} (plain : output.toJson.Plain) :
    Json.Tree.parse output.document = .ok (Json.Tree.ofJson output.toJson) :=
  Json.Tree.parse_pretty plain

theorem join_document (output : Output) :
    String.join [output.toJson.pretty, "\n"] = output.document := by
  simp [document, String.join_cons]

theorem write_json (output : Output) (sink : Text.Sink) :
    (output.write .json sink).1 = (sink.writeAll [output.toJson.pretty, "\n"]).1 ∧
      ((output.write .json sink).2 = .ok () ↔
        (sink.writeAll [output.toJson.pretty, "\n"]).2 = true) := by
  unfold write writeLines
  dsimp only [List.map]
  rw [Text.Sink.writeAll, show ("" ++ "\n" : String) = "\n" from rfl]
  cases sink.write output.toJson.pretty with
  | mk after took =>
    cases took with
    | false => simp
    | true =>
      dsimp only
      cases after.writeAll ["\n"] with
      | mk last all => cases all <;> simp

end Output

/-- How a job ends that prints at most one document, and that as its last step: with a whole document
of the kind, or with an error. Then it has printed nothing, or the output had no room for the whole
document and took the beginning of it. -/
inductive Ends (kind : Output → Prop) (before after : Text.Sink) : Except Error Unit → Prop where
  | printed (output : Output) (fits : kind output)
    (taken : after.taken.toList = before.taken.toList ++ Text.utf8 output.document) :
    Ends kind before after (.ok ())
  | silent (e : Error) (same : after = before) : Ends kind before after (.error e)
  | refused (e : Error) (output : Output) (fits : kind output) (k : Nat)
    (room : before.room = some k) (short : k < (Text.utf8 output.document).length)
    (taken : after.taken.toList = before.taken.toList ++ (Text.utf8 output.document).take k) :
    Ends kind before after (.error e)

theorem Ends.mono {kind other : Output → Prop} {before after : Text.Sink}
    {result : Except Error Unit} (ends : Ends kind before after result)
    (more : ∀ output, kind output → other output) : Ends other before after result := by
  cases ends with
  | printed output fits taken => exact .printed output (more output fits) taken
  | silent e same => exact .silent e same
  | refused e output fits k room short taken =>
    exact .refused e output (more output fits) k room short taken

namespace Job

variable {α β : Type} {kind : Output → Prop}

/-- A job that leaves the output as it is. -/
def Quiet (job : Job α) : Prop :=
  ∀ session, (job.runIn session).2.out = session.out

/-- A job that prints one document of a kind as its last step, or none. -/
def Documents (job : Job Unit) (kind : Output → Prop) : Prop :=
  ∀ session, Ends kind session.out (job.runIn session).2.out (job.runIn session).1

theorem Looks.quiet {job : Job α} (looks : job.Looks) : job.Quiet := by
  intro session
  rw [looks session]

namespace Quiet

theorem bind {job : Job α} {next : α → Job β} (first : job.Quiet) (rest : ∀ a, (next a).Quiet) :
    (job >>= next).Quiet := by
  intro session
  rcases runIn_bind_cases job next session with ⟨e, -, run⟩ | ⟨a, -, run⟩
  · rw [run]
    exact first session
  · rw [run]
    exact (rest a _).trans (first session)

theorem ask (prepared : Except RequestFault Request) : (Job.ask prepared).Quiet := by
  intro session
  obtain ⟨sent, answers, after⟩ := frame_ask prepared session
  rw [after]

theorem askFor (decoder : Json.Decoder α) (prepared : Except RequestFault Request) :
    (Job.askFor decoder prepared).Quiet := by
  intro session
  obtain ⟨sent, answers, after⟩ := frame_askFor decoder prepared session
  rw [after]

theorem withFiles (change : Files → Except FileFault Files) : (Job.withFiles change).Quiet := by
  intro session
  rw [runIn_withFiles]
  cases change session.files <;> rfl

theorem follow (client : Client) (query : Query) (format : Format) (interval : Nat) :
    (Follow.run client query format interval).Quiet := by
  intro session
  rw [Follow.runIn_run]
  exact Follow.out_runIn client query format interval session

end Quiet

namespace Documents

theorem print {output : Output} (fits : kind output) : (Job.print .json output).Documents kind := by
  intro session
  obtain ⟨out, result⟩ := output.write_json session.out
  have taken := session.out.taken_writeAll [output.toJson.pretty, "\n"]
  have whole := session.out.writeAll_succeeds_iff [output.toJson.pretty, "\n"]
  rw [output.join_document, ← out] at taken
  rw [output.join_document, ← result] at whole
  unfold Job.print
  rw [runIn_write]
  dsimp only
  cases ended : (output.write .json session.out).2 with
  | ok _ =>
    refine .printed output fits (taken.trans ?_)
    rw [List.take_of_length_le]
    cases room : session.out.room with
    | none => exact Nat.le_refl _
    | some k => exact whole.mp ended k room
  | error e =>
    rw [ended] at whole
    cases room : session.out.room with
    | none =>
      rw [room] at whole
      cases whole.mpr nofun
    | some k =>
      rw [room] at taken whole
      refine .refused e output fits k room ?_ taken
      by_contra fits
      cases whole.mpr fun n same => by cases same; omega

theorem throw (e : Error) : (MonadExcept.throw e : Job Unit).Documents kind :=
  fun _ => .silent e rfl

theorem mono {job : Job Unit} {other : Output → Prop} (documents : job.Documents kind)
    (more : ∀ output, kind output → other output) : job.Documents other :=
  fun session => (documents session).mono more

theorem after {job : Job α} {next : α → Job Unit} (quiet : job.Quiet)
    (rest : ∀ a, (next a).Documents kind) : (job >>= next).Documents kind := by
  intro session
  have same := quiet session
  rcases runIn_bind_cases job next session with ⟨e, -, run⟩ | ⟨a, -, run⟩
  · rw [run]
    exact .silent e same
  · rw [run, ← same]
    exact rest a _

theorem after_ofResult {result : Except Error α} {next : α → Job Unit}
    (rest : ∀ a, result = .ok a → (next a).Documents kind) :
    (Job.ofResult result >>= next).Documents kind := by
  cases result with
  | error e => exact fun _ => .silent e rfl
  | ok a => exact rest a rfl

end Documents

end Job

/-! ## The commands -/

/-- The workflow that a command follows to its end if it waits: that of an action, on an instance if
the command names it. -/
def Waiting.follows? (waiting : Waiting) (named : Option String) (action : Action) :
    Option (Option String × Action) :=
  if waiting.wait then some (named, action) else none

/-- The workflow that a command on instances follows. -/
def InstanceCommand.follows? : InstanceCommand → Option (Option String × Action)
  | .create _ _ _ _ waiting => waiting.follows? none .create
  | .modify id _ waiting => waiting.follows? (some id) .modify
  | .delete id waiting => waiting.follows? (some id) .delete
  | .power action id waiting => waiting.follows? (some id) action.action
  | .workflow id action _ => some (some id, action)
  | .list => none
  | .describe _ => none

def Command.follows? : Command → Option (Option String × Action)
  | .onInstances command => command.follows?
  | .onSnapshots (.restore _ _ _ waiting) => waiting.follows? none .restore
  | _ => none

/-- Whether an output is the summary of the workflow that was followed, and none if there was no
workflow to follow. -/
def Output.Concludes (followed : Option (Option String × Action)) (output : Output) : Prop :=
  match followed with
  | some (named, action) => ∃ id report, output = .summary ⟨id, action.text, report⟩ ∧
      ∀ name ∈ named, id = name
  | none => ∀ summary, output ≠ .summary summary

/-- What a workflow came to is the only document; a failure prints nothing for programs. -/
theorem Follow.documents_job (client : Client) (query : Query) (interval : Nat) :
    (Follow.job client query .json interval).Documents
      (Output.Concludes (some (some query.instanceId, query.action))) := by
  refine .after (.follow client query .json interval) fun ending => ?_
  unfold conclude
  cases ending with
  | clockEnded => exact .throw _
  | concluded conclusion =>
    cases conclusion with
    | ok report => exact .print ⟨query.instanceId, report, rfl, fun name same => by cases same; rfl⟩
    | error e =>
      -- The banner of a failure is for readers alone.
      have silent : (!e.isCancelled && !Format.isJson .json) = false := by simp [Format.isJson]
      dsimp only
      rw [silent]
      exact .throw _

namespace FleetContext

variable {context : FleetContext}

/-- The acknowledgement is the document of a command that does not wait, and of no other. -/
theorem documents_acknowledge (json : context.format = .json) (message : Message) {id : String}
    (action : Action) (waiting : Waiting) {named : Option String} (same : ∀ name ∈ named, id = name) :
    (context.acknowledge message id action waiting).Documents
      (Output.Concludes (waiting.follows? named action)) := by
  unfold acknowledge Waiting.follows? follow FleetContext.print
  rw [json]
  cases waiting.wait with
  | false =>
    show (Job.print .json (.message message) >>= fun _ => pure ()).Documents (Output.Concludes none)
    rw [bind_pure_unit]
    exact .print nofun
  | true =>
    refine .mono (Follow.documents_job _ _ _) ?_
    rintro output ⟨_, report, rfl, named⟩
    exact ⟨id, report, by rw [named _ rfl]; rfl, same⟩

theorem documents_print (json : context.format = .json) {kind : Output → Prop} {output : Output}
    (fits : kind output) : (context.print output).Documents kind := by
  unfold FleetContext.print
  rw [json]
  exact .print fits

theorem documents_follow (json : context.format = .json) (id : String) (action : Action)
    (seconds : Option Nat) :
    (context.follow id action seconds).Documents (Output.Concludes (some (some id, action))) := by
  unfold follow
  rw [json]
  exact Follow.documents_job _ _ _

theorem quiet_fetch {α : Type} (decoder : Json.Decoder α) (operation : Operation) :
    (context.fetch decoder operation).Quiet :=
  .askFor decoder _

theorem quiet_perform (operation : Operation) : (context.perform operation).Quiet :=
  .bind (.ask _) fun _ => Job.Looks.quiet fun _ => rfl

end FleetContext

variable {context : FleetContext}

theorem InstanceCommand.documents_job (json : context.format = .json) (command : InstanceCommand) :
    (command.job context).Documents (Output.Concludes command.follows?) := by
  unfold job
  cases command with
  | list => exact .after (context.quiet_fetch _ _) fun list => context.documents_print json nofun
  | describe id =>
    exact .after (context.quiet_fetch _ _) fun shown => context.documents_print json nofun
  | create resource cloudProvider region params waiting =>
    refine .after (Job.Looks.ofArgument _).quiet fun params => ?_
    refine .after (context.quiet_fetch _ _) fun id => ?_
    exact context.documents_acknowledge json _ .create waiting nofun
  | modify id params waiting =>
    dsimp only
    split
    · exact .throw _
    · refine .after (Job.Looks.ofArgument _).quiet fun params => ?_
      refine .after (context.quiet_perform _) fun _ => ?_
      exact context.documents_acknowledge json _ .modify waiting fun _ same => Option.some.inj same
  | delete id waiting =>
    refine .after (context.quiet_perform _) fun _ => ?_
    exact context.documents_acknowledge json _ .delete waiting fun _ same => Option.some.inj same
  | power action id waiting =>
    refine .after (context.quiet_perform _) fun _ => ?_
    exact context.documents_acknowledge json _ action.action waiting fun _ same =>
      Option.some.inj same
  | workflow id action seconds => exact context.documents_follow json id action seconds

theorem SnapshotCommand.documents_job (json : context.format = .json) (command : SnapshotCommand) :
    (command.job context).Documents (Output.Concludes (Command.onSnapshots command).follows?) := by
  unfold job
  cases command with
  | list instanceId =>
    exact .after (context.quiet_fetch _ _) fun list => context.documents_print json nofun
  | describe id instanceId =>
    exact .after (context.quiet_fetch _ _) fun shown => context.documents_print json nofun
  | create instanceId =>
    exact .after (context.quiet_fetch _ _) fun id => context.documents_print json nofun
  | delete id instanceId =>
    exact .after (context.quiet_perform _) fun _ => context.documents_print json nofun
  | restore id instanceId params waiting =>
    refine .after (Job.Looks.ofArgument _).quiet fun params => ?_
    refine .after (context.quiet_fetch _ _) fun new => ?_
    exact context.documents_acknowledge json _ .restore waiting nofun

theorem ServerCommand.documents_job (path : String) (command : ServerCommand) :
    (command.job path .json).Documents (Output.Concludes none) := by
  unfold job
  refine .after Job.Looks.files.quiet fun files => ?_
  refine .after (Job.Looks.ofResult _).quiet fun document => ?_
  cases command with
  | list => exact .after (Job.Looks.ofResult _).quiet fun servers => .print nofun
  | describe name => exact .after (Job.Looks.ofResult _).quiet fun server => .print nofun
  | add name program args env force =>
    refine .after (Job.Looks.ofArgument _).quiet fun env => ?_
    refine .after (Job.Looks.ofResult _).quiet fun _ => ?_
    exact .after (.withFiles _) fun _ => .print nofun
  | remove name =>
    refine .after (Job.Looks.ofResult _).quiet fun _ => ?_
    exact .after (.withFiles _) fun _ => .print nofun

namespace Account

theorem documents_login (settings : Settings) (email password : String) :
    (login settings .json email password).Documents (Output.Concludes none) := by
  unfold login
  split
  · exact .throw _
  · refine .after (Job.Looks.ofConfig _).quiet fun client => ?_
    refine .after (.askFor _ _) fun token => ?_
    refine .after Job.Looks.files.quiet fun files => ?_
    refine .after (Job.Looks.ofConfig _).quiet fun config => ?_
    exact .after (.withFiles _) fun _ => .print nofun

theorem documents_logout (settings : Settings) :
    (logout settings .json).Documents (Output.Concludes none) := by
  unfold logout
  refine .after Job.Looks.files.quiet fun files => ?_
  refine .after (Job.Looks.ofConfig _).quiet fun config => ?_
  cases config.token with
  | none => exact .print nofun
  | some token => exact .after (.withFiles _) fun _ => .print nofun

end Account

/-! ## The command line -/

theorem Invocation.documents_job (environment : Environment) {invocation : Invocation}
    (json : invocation.globals.format = .json) :
    (invocation.job environment).Documents (Output.Concludes invocation.command.follows?) := by
  have looks : Job.Looks (do
      Job.ofConfig (Settings.load environment (← Job.files) invocation.globals)) :=
    .bind .files fun files => .ofConfig _
  unfold job
  rw [json]
  cases invocation.command with
  | onServers named command =>
    exact .after (Job.Looks.ofConfig _).quiet fun path => command.documents_job path
  | login email password =>
    exact .after looks.quiet fun settings => Account.documents_login settings email password
  | logout => exact .after looks.quiet fun settings => Account.documents_logout settings
  | onInstances command =>
    refine .after looks.quiet fun settings => ?_
    exact .after_ofResult fun context placed =>
      command.documents_job (Settings.of_context placed).1
  | onSnapshots command =>
    refine .after looks.quiet fun settings => ?_
    exact .after_ofResult fun context placed =>
      command.documents_job (Settings.of_context placed).1

namespace Completion

variable {environment : Environment} {words : List String} {session : Session}
  {invocation : Invocation}

/-- What a command line for programs prints, for every command, settings, files, answers of the API
and output. If it succeeds, it is one document with a line feed after it: the summary of the workflow
if the command follows one, and else something other than a summary. If it fails, at whatever point,
nothing was printed, or the output refused the rest of such a document. -/
theorem document_ofWords (parsed : Invocation.parse environment words = .ok invocation)
    (json : invocation.globals.format = .json) :
    ((ofWords environment words session).1.exitCode = 0 →
      ∃ output : Output, output.Concludes invocation.command.follows? ∧
        (ofWords environment words session).2.out.taken.toList =
          session.out.taken.toList ++ Text.utf8 output.document ∧
        (output.toJson.Plain →
          Json.Tree.parse output.document = .ok (Json.Tree.ofJson output.toJson))) ∧
    ((ofWords environment words session).1.exitCode ≠ 0 →
      (ofWords environment words session).2.out = session.out ∨
        ∃ (output : Output) (k : Nat), output.Concludes invocation.command.follows? ∧
          session.out.room = some k ∧ k < (Text.utf8 output.document).length ∧
          (ofWords environment words session).2.out.taken.toList =
            session.out.taken.toList ++ (Text.utf8 output.document).take k) := by
  have ends := Invocation.documents_job environment json session
  unfold ofWords
  rw [parsed]
  dsimp only
  generalize ((invocation.job environment).runIn session).1 = result at ends ⊢
  cases ends with
  | printed output fits taken =>
    exact ⟨fun _ => ⟨output, fits, taken, Output.parse_document⟩, fun fails => absurd rfl fails⟩
  | silent e same => exact ⟨fun zero => absurd zero e.exitCode_ne_zero, fun _ => .inl same⟩
  | refused e output fits k room short taken =>
    exact ⟨fun zero => absurd zero e.exitCode_ne_zero,
      fun _ => .inr ⟨output, k, fits, room, short, taken⟩⟩

/-- A deletion that waits prints the summary alone, and nothing if the workflow fails after the
deletion was accepted. -/
theorem document_ofWords_delete :
    let environment : Environment := ⟨[("HOME", "/h")], none⟩
    let words := ["--format", "json"] ++ deletion
    let session (status : String) := Session.start [.answered 200 "", .answered 200
      ("\x7b\"workflowInfo\":\x7b\"status\":\"" ++ status ++ "\"\x7d\x7d")] deletionFiles .unbounded
    (∃ report, (ofWords environment words (session "success")).2.out.text =
        (Output.summary ⟨"i-1", "delete", report⟩).document) ∧
      (ofWords environment words (session "failed")).1.exitCode = 1 ∧
      (ofWords environment words (session "failed")).2.out = .unbounded := by
  intro environment words session
  have parsed : Invocation.parse environment words =
      .ok ⟨⟨none, none, none, .json, some "c", false⟩,
        .onInstances (.delete "i-1" ⟨true, none⟩)⟩ := by
    decide +kernel
  have succeeds : (ofWords environment words (session "success")).1.exitCode = 0 := by
    decide +kernel
  have fails : (ofWords environment words (session "failed")).1.exitCode = 1 := by
    decide +kernel
  have fresh (status : String) : (session status).out = .unbounded := rfl
  clear_value session
  obtain ⟨printed, -⟩ := @document_ofWords environment words (session "success") _ parsed rfl
  obtain ⟨-, silent⟩ := @document_ofWords environment words (session "failed") _ parsed rfl
  refine ⟨?_, fails, ?_⟩
  · obtain ⟨output, ⟨id, report, rfl, named⟩, taken, -⟩ := printed succeeds
    obtain rfl := named _ rfl
    refine ⟨report, ?_⟩
    have nothing : Text.Sink.unbounded.taken.toList = [] := rfl
    unfold Text.Sink.text
    rw [taken, fresh, nothing, List.nil_append, Text.ofUtf8Lossy_utf8]
    rfl
  · rcases silent (by rw [fails]; decide) with same | ⟨output, k, -, room, -⟩
    · rw [same, fresh]
    · rw [fresh] at room
      cases room

/-- An output that has no room for the whole document is left with the beginning of it. -/
theorem document_ofWords_full :
    let words := ["--format", "json", "mcp", "--client-config", "m", "list"]
    let session := Session.start [] .empty (.bounded 5)
    (ofWords ⟨[("HOME", "/h")], none⟩ words session).1.exitCode = 1 ∧
      (ofWords ⟨[("HOME", "/h")], none⟩ words session).2.out.text = "\x7b\n  \"" :=
  ⟨by decide +kernel, by decide +kernel⟩

end Completion

end FleetControl
