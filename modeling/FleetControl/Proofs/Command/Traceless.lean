import FleetControl.Proofs.Command.Requests

/-!
# Errors leave no trace

What is proved:

1. `traceless_ofWords`: a command line that ends in an error leaves all files as they were, unless
   the error is that the output refused what was printed. If the error is one of those that are
   found before anything is asked of the API (`Error.isEarly`), nothing was sent either.
2. Beneath it are four kinds of jobs, from the strongest to the weakest: `Job.Looks` leaves the whole
   session as it is; `Job.Works` may send and print; `Job.Late` may also write a file, if nothing but
   printing comes after it; `Job.Traceless` is the promise itself. A job that looks may stand before
   any other (`Traceless.after`), which is how a command settles its arguments first.

The kinds are those of a job from one session where what was found in the files must be found there
again: signing in reads the configuration before its request and once more after it.
-/

namespace FleetControl

/-- Whether an error is found before anything is asked of the API. -/
def Error.isEarly : Error → Bool
  | .config _ => true
  | .notAuthenticated => true
  | .invalidArgument _ => true
  | .notFound _ _ => true
  | _ => false

/-- Whether an error is that the output refused what was printed. -/
def Error.isRefusal (e : Error) : Bool :=
  e == .file .writerFull || e == Output.documentFault

/-- An output that takes everything, or an error that is not its refusal. -/
def Session.Printed (session : Session) (e : Error) : Prop :=
  session.out.room = none ∨ e.isRefusal = false

theorem Follow.files_runIn (client : Client) (query : Query) (format : Format) (interval : Nat)
    (session : Session) :
    (runIn client query format interval session).2.files = session.files := by
  unfold runIn ofFetches
  rfl

namespace Output

theorem refusal_of_writeLines {sink : Text.Sink} {lines : List String} {e : Error}
    (h : (writeLines sink lines).2 = .error e) : e = .file .writerFull := by
  unfold writeLines at h
  split at h
  · cases h
  · cases h
    rfl

theorem refusal_of_write {sink : Text.Sink} {output : Output} {format : Format} {e : Error}
    (h : (output.write format sink).2 = .error e) : e = .file .writerFull ∨ e = documentFault := by
  cases format with
  | table => exact .inl (refusal_of_writeLines h)
  | json =>
    simp only [write] at h
    split at h
    · cases h
      exact .inr rfl
    · exact .inl (refusal_of_writeLines h)

end Output

namespace Job

variable {α β : Type} {session : Session}

theorem runIn_bind_cases (job : Job α) (next : α → Job β) (session : Session) :
    (∃ e, (job.runIn session).1 = .error e ∧
        (job >>= next).runIn session = (.error e, (job.runIn session).2)) ∨
      ∃ a, (job.runIn session).1 = .ok a ∧
        (job >>= next).runIn session = (next a).runIn (job.runIn session).2 := by
  rw [runIn_bind]
  cases job.runIn session with
  | mk result later =>
    cases result with
    | error e => exact .inl ⟨e, rfl, rfl⟩
    | ok a => exact .inr ⟨a, rfl, rfl⟩

/-! ## Looking -/

/-- A job that leaves its session as it is. -/
def Looks (job : Job α) : Prop :=
  ∀ session, (job.runIn session).2 = session

namespace Looks

theorem ofResult (result : Except Error α) : (Job.ofResult result).Looks := by
  intro session
  rw [runIn_ofResult]

theorem ofConfig (result : Except ConfigFault α) : (Job.ofConfig result).Looks := by
  intro session
  cases result <;> rfl

theorem ofArgument (result : Except ArgumentFault α) : (Job.ofArgument result).Looks := by
  intro session
  cases result <;> rfl

theorem throw (e : Error) : (MonadExcept.throw e : Job α).Looks :=
  fun _ => rfl

theorem files : Job.files.Looks :=
  fun _ => rfl

theorem bind {job : Job α} {next : α → Job β} (first : job.Looks) (rest : ∀ a, (next a).Looks) :
    (job >>= next).Looks := by
  intro session
  rcases runIn_bind_cases job next session with ⟨e, -, run⟩ | ⟨a, -, run⟩
  · rw [run]
    exact first session
  · rw [run, first session]
    exact rest a session

end Looks

/-! ## Working -/

/-- A job that leaves the files as they are and whose errors are not early. -/
structure Works (job : Job α) : Prop where
  files : ∀ session, (job.runIn session).2.files = session.files
  late : ∀ session e, (job.runIn session).1 = .error e → e.isEarly = false

namespace Works

theorem bind {job : Job α} {next : α → Job β} (first : job.Works) (rest : ∀ a, (next a).Works) :
    (job >>= next).Works := by
  constructor
  · intro session
    rcases runIn_bind_cases job next session with ⟨e, -, run⟩ | ⟨a, -, run⟩
    · rw [run]
      exact first.files session
    · rw [run]
      exact ((rest a).files _).trans (first.files session)
  · intro session e h
    rcases runIn_bind_cases job next session with ⟨e', failed, run⟩ | ⟨a, -, run⟩
    · rw [run] at h
      cases h
      exact first.late session e failed
    · rw [run] at h
      exact (rest a).late _ e h

theorem ofResult {result : Except Error α} (late : ∀ e, result = .error e → e.isEarly = false) :
    (Job.ofResult result).Works where
  files session := by rw [runIn_ofResult]
  late session e h := by
    rw [runIn_ofResult] at h
    exact late e h

theorem pure (a : α) : (Pure.pure a : Job α).Works :=
  ⟨fun _ => rfl, nofun⟩

theorem throw {e : Error} (late : e.isEarly = false) : (MonadExcept.throw e : Job α).Works where
  files session := rfl
  late session e' h := by
    cases h
    exact late

theorem of_prints {job : Job Unit} (prints : job.Prints)
    (late : ∀ session e, (job.runIn session).1 = .error e → e.isEarly = false) : job.Works where
  files session := by
    obtain ⟨out, after⟩ := prints.frame session
    rw [after]
  late := late

theorem print (format : Format) (output : Output) : (Job.print format output).Works := by
  refine of_prints (prints_print format output) ?_
  intro session e h
  simp only [Job.print, runIn_write] at h
  rcases Output.refusal_of_write h with rfl | rfl <;> rfl

theorem printLine (line : String) : (Job.printLine line).Works := by
  refine of_prints (prints_printLine line) ?_
  intro session e h
  simp only [Job.printLine, runIn_write] at h
  cases Output.refusal_of_writeLines h
  rfl

end Works

theorem frame_ask (prepared : Except RequestFault Request) (session : Session) :
    ∃ sent answers, ((ask prepared).runIn session).2 = { session with sent, answers } := by
  cases prepared with
  | error fault => exact ⟨session.sent, session.answers, rfl⟩
  | ok request =>
    cases answers : session.answers with
    | nil =>
      rw [runIn_ask_nil request answers]
      exact ⟨_, session.answers, rfl⟩
    | cons answer rest =>
      rw [runIn_ask request answers]
      exact ⟨_, rest, rfl⟩

theorem frame_askFor (decoder : Json.Decoder α) (prepared : Except RequestFault Request)
    (session : Session) :
    ∃ sent answers, ((askFor decoder prepared).runIn session).2 = { session with sent, answers } := by
  obtain ⟨sent, answers, after⟩ := frame_ask prepared session
  refine ⟨sent, answers, ?_⟩
  have asked := runIn_bind_cases (ask prepared) (fun body => Job.ofResult (Answer.decode decoder body))
    session
  rw [← after]
  rcases asked with ⟨e, -, run⟩ | ⟨body, -, run⟩
  · exact congrArg Prod.snd run
  · refine (congrArg Prod.snd run).trans ?_
    rw [runIn_ofResult]

namespace Works

theorem late_accepted {request : Request} {answer : Answer} {e : Error}
    (h : answer.accepted request = .error e) : e.isEarly = false := by
  cases answer with
  | dropped | failed =>
    cases h
    rfl
  | answered status body =>
    simp only [Answer.accepted] at h
    split at h
    · cases h
    · cases h
      rfl

theorem ask (prepared : Except RequestFault Request) : (Job.ask prepared).Works where
  files session := by
    obtain ⟨sent, answers, after⟩ := frame_ask prepared session
    rw [after]
  late session e h := by
    cases prepared with
    | error fault =>
      cases h
      rfl
    | ok request =>
      cases answers : session.answers with
      | nil =>
        rw [runIn_ask_nil request answers] at h
        cases h
        rfl
      | cons answer rest =>
        rw [runIn_ask request answers] at h
        exact late_accepted h

theorem askFor (decoder : Json.Decoder α) (prepared : Except RequestFault Request) :
    (Job.askFor decoder prepared).Works := by
  refine bind (ask prepared) fun body => ofResult ?_
  intro e h
  simp only [Answer.decode] at h
  split at h
  · cases h
  · cases h
    rfl

theorem follow (client : Client) (query : Query) (format : Format) (interval : Nat) :
    (Follow.job client query format interval).Works := by
  have polls : (Follow.run client query format interval).Works := by
    constructor
    · intro session
      rw [Follow.runIn_run]
      exact Follow.files_runIn client query format interval session
    · intro session e h
      rw [Follow.runIn_run] at h
      cases h
  refine bind polls fun ending => ?_
  unfold Follow.conclude
  cases ending with
  | clockEnded => exact throw rfl
  | concluded conclusion =>
    cases conclusion with
    | ok report => exact print format _
    | error e =>
      have thrown : (MonadExcept.throw (.workflow e) : Job Unit).Works := throw rfl
      dsimp only
      split
      · exact bind (printLine _) fun _ => thrown
      · exact thrown

end Works

/-! ## Writing a file last -/

/-- From this session, the errors of a job are not early and leave the files as they were. -/
def Late (job : Job α) (session : Session) : Prop :=
  ∀ e, (job.runIn session).1 = .error e →
    e.isEarly = false ∧ (session.Printed e → (job.runIn session).2.files = session.files)

theorem runIn_withFiles (change : Files → Except FileFault Files) (session : Session) :
    (withFiles change).runIn session =
      match change session.files with
      | .ok files => (.ok (), { session with files })
      | .error fault => (.error (.file fault), session) := by
  change (match change session.files with
    | .ok files => set { session with files }
    | .error fault => throw (.file fault) : Job Unit).runIn session = _
  cases change session.files <;> rfl

/-- Writing a file and saying so. A file that cannot be written stays as it was; once it is written
only the output can fail. -/
theorem late_withFiles (change : Files → Except FileFault Files) (format : Format)
    (output : Output) (session : Session) :
    (withFiles change >>= fun _ => print format output).Late session := by
  intro e h
  rcases runIn_bind_cases (withFiles change) (fun _ => print format output) session with
    ⟨e', failed, run⟩ | ⟨-, done, run⟩
  · rw [run, runIn_withFiles] at h ⊢
    rw [runIn_withFiles] at failed
    cases changed : change session.files with
    | error fault =>
      rw [changed] at failed
      cases failed
      cases h
      exact ⟨rfl, fun _ => rfl⟩
    | ok files =>
      rw [changed] at failed
      cases failed
  · rw [run] at h ⊢
    refine ⟨(Works.print format output).late _ e h, ?_⟩
    rintro (free | plain)
    · have room : ((withFiles change).runIn session).2.out.room = none := by
        rw [runIn_withFiles]
        cases change session.files <;> exact free
      rw [((prints_print format output).unbounded _ room).1] at h
      cases h
    · simp only [print, runIn_write] at h
      rcases Output.refusal_of_write h with rfl | rfl <;> cases plain

theorem Works.isLate {job : Job α} (works : job.Works) (session : Session) : job.Late session :=
  fun e h => ⟨works.late session e h, fun _ => works.files session⟩

theorem late_askFor {decoder : Json.Decoder α} {prepared : Except RequestFault Request}
    {next : α → Job β}
    (rest : ∀ a later, later.files = session.files → (next a).Late later) :
    (askFor decoder prepared >>= next).Late session := by
  intro e h
  obtain ⟨sent, answers, after⟩ := frame_askFor decoder prepared session
  rcases runIn_bind_cases (askFor decoder prepared) next session with
    ⟨e', failed, run⟩ | ⟨a, -, run⟩
  · rw [run] at h ⊢
    cases h
    exact ⟨(Works.askFor decoder prepared).late session e failed, fun _ => by rw [after]⟩
  · rw [run, after] at h ⊢
    exact rest a { session with sent, answers } rfl e h

theorem Late.after {job : Job α} {next : α → Job β} {a : α}
    (found : job.runIn session = (.ok a, session)) (rest : (next a).Late session) :
    (job >>= next).Late session := by
  have goes : (job >>= next).runIn session = (next a).runIn session := by rw [runIn_bind, found]
  unfold Late
  rw [goes]
  exact rest

/-! ## Leaving no trace -/

/-- From this session, the errors of a job leave the files as they were, and those that are early
nothing that was sent. -/
structure Traceless (job : Job α) (session : Session) : Prop where
  files : ∀ e, (job.runIn session).1 = .error e → session.Printed e →
    (job.runIn session).2.files = session.files
  sent : ∀ e, (job.runIn session).1 = .error e → e.isEarly →
    (job.runIn session).2.sent = session.sent

theorem Late.traceless {job : Job α} (late : job.Late session) : job.Traceless session where
  files e h := (late e h).2
  sent e h early := by
    rw [(late e h).1] at early
    cases early

theorem Works.traceless {job : Job α} (works : job.Works) (session : Session) :
    job.Traceless session :=
  (works.isLate session).traceless

theorem Looks.traceless {job : Job α} (looks : job.Looks) (session : Session) :
    job.Traceless session where
  files e _ _ := by rw [looks session]
  sent e _ _ := by rw [looks session]

theorem Traceless.after {job : Job α} {next : α → Job β} (looks : job.Looks)
    (rest : ∀ a, job.runIn session = (.ok a, session) → (next a).Traceless session) :
    (job >>= next).Traceless session := by
  have same := looks session
  rcases runIn_bind_cases job next session with ⟨e, -, run⟩ | ⟨a, found, run⟩
  · rw [same] at run
    exact ⟨fun _ _ _ => by rw [run], fun _ _ _ => by rw [run]⟩
  · rw [same] at run
    obtain ⟨files, sent⟩ := rest a (Prod.ext found same)
    rw [← run] at files sent
    exact ⟨files, sent⟩

end Job

/-! ## The commands on the fleet -/

namespace FleetContext

variable {α : Type} (context : FleetContext)

theorem works_fetch (decoder : Json.Decoder α) (operation : Operation) :
    (context.fetch decoder operation).Works :=
  .askFor decoder _

theorem works_perform (operation : Operation) : (context.perform operation).Works :=
  .bind (.ask _) fun _ => .pure ()

theorem works_print (output : Output) : (context.print output).Works :=
  .print context.format output

theorem works_acknowledge (message : Message) (id : String) (action : Action) (waiting : Waiting) :
    (context.acknowledge message id action waiting).Works := by
  have follows : (context.follow id action waiting.seconds).Works := .follow _ _ _ _
  unfold acknowledge
  cases waiting.wait with
  | false => exact .bind (context.works_print _) fun _ => .pure ()
  | true =>
    cases context.format.isJson with
    | false => exact .bind (context.works_print _) fun _ => follows
    | true => exact follows

end FleetContext

/-- Arguments are settled before the first request. -/
theorem InstanceCommand.traceless_job (context : FleetContext) (command : InstanceCommand)
    (session : Session) : (command.job context).Traceless session := by
  cases command with
  | list =>
    apply Job.Works.traceless
    exact .bind (context.works_fetch _ _) fun _ => context.works_print _
  | describe id =>
    apply Job.Works.traceless
    exact .bind (context.works_fetch _ _) fun _ => context.works_print _
  | create resource cloudProvider region params waiting =>
    refine .after (.ofArgument (Pairs.params params)) fun fields _ => ?_
    apply Job.Works.traceless
    exact .bind (context.works_fetch _ _) fun id => context.works_acknowledge _ _ _ _
  | modify id params waiting =>
    have rest : Job.Traceless (do
        let params ← Job.ofArgument (Pairs.params params)
        context.perform (.modifyInstance id params)
        context.acknowledge (.done ("Instance " ++ id ++ " modification requested")) id .modify
          waiting) session := by
      refine .after (.ofArgument (Pairs.params params)) fun fields _ => ?_
      apply Job.Works.traceless
      exact .bind (context.works_perform _) fun _ => context.works_acknowledge _ _ _ _
    unfold job
    dsimp only
    split
    · exact (Job.Looks.throw _).traceless session
    · exact rest
  | delete id waiting =>
    apply Job.Works.traceless
    exact .bind (context.works_perform _) fun _ => context.works_acknowledge _ _ _ _
  | power action id waiting =>
    apply Job.Works.traceless
    exact .bind (context.works_perform _) fun _ => context.works_acknowledge _ _ _ _
  | workflow id action seconds =>
    apply Job.Works.traceless
    exact .follow _ _ _ _

theorem SnapshotCommand.traceless_job (context : FleetContext) (command : SnapshotCommand)
    (session : Session) : (command.job context).Traceless session := by
  cases command with
  | list instanceId =>
    apply Job.Works.traceless
    exact .bind (context.works_fetch _ _) fun _ => context.works_print _
  | describe id instanceId =>
    apply Job.Works.traceless
    exact .bind (context.works_fetch _ _) fun _ => context.works_print _
  | create instanceId =>
    apply Job.Works.traceless
    exact .bind (context.works_fetch _ _) fun _ => context.works_print _
  | delete id instanceId =>
    apply Job.Works.traceless
    exact .bind (context.works_perform _) fun _ => context.works_print _
  | restore id instanceId params waiting =>
    refine .after (.ofArgument (Pairs.params params)) fun fields _ => ?_
    apply Job.Works.traceless
    exact .bind (context.works_fetch _ _) fun new => context.works_acknowledge _ _ _ _

/-! ## The commands that write a file -/

/-- The file of the assistant is written when nothing but printing is left to do. -/
theorem ServerCommand.traceless_job (path : String) (format : Format) (command : ServerCommand)
    (session : Session) : (command.job path format).Traceless session := by
  refine .after .files fun files _ => ?_
  refine .after (.ofResult (Document.load files path)) fun document _ => ?_
  cases command with
  | list =>
    refine .after (.ofResult document.servers) fun servers _ => ?_
    exact (Job.Works.print format _).traceless session
  | describe name =>
    refine .after (.ofResult (document.get name)) fun server _ => ?_
    exact (Job.Works.print format _).traceless session
  | add name program args env force =>
    refine .after (.ofArgument (Pairs.texts env)) fun env _ => ?_
    refine .after (.ofResult _) fun _ _ => ?_
    exact (Job.late_withFiles _ format _ session).traceless
  | remove name =>
    refine .after (.ofResult _) fun _ _ => ?_
    exact (Job.late_withFiles _ format _ session).traceless

theorem Settings.load_config {environment : Environment} {files : Files} {globals : Globals}
    {settings : Settings} (h : Settings.load environment files globals = .ok settings) :
    ∃ config, Config.load files settings.configPath = .ok config := by
  unfold load at h
  cases found : pathOf environment globals with
  | error fault =>
    rw [found] at h
    cases h
  | ok path =>
    rw [found] at h
    cases read : Config.load files path with
    | error fault =>
      simp only [bind, Except.bind, read] at h
      cases h
    | ok config =>
      simp only [bind, Except.bind, read] at h
      cases h
      exact ⟨config, read⟩

namespace Account

variable {settings : Settings} {session : Session}

/-- Signing in reads the configuration a second time after its request. By then it is known to be
readable, so that this cannot fail. -/
theorem traceless_login (format : Format) (email password : String) {config : Config}
    (readable : Config.load session.files settings.configPath = .ok config) :
    (login settings format email password).Traceless session := by
  have rest : Job.Traceless (do
      let client ← Job.ofConfig (Client.new settings.apiUrl none)
      let token ← Job.askFor Answer.tokenDecoder (client.signIn email password)
      let config ← Job.ofConfig (Config.load (← Job.files) settings.configPath)
      store settings.configPath config (some token)
      Job.print format (.message (.done ("Logged in as " ++ email)))) session := by
    refine .after (.ofConfig _) fun client _ => ?_
    apply Job.Late.traceless
    refine Job.late_askFor fun token later same => ?_
    have there : (Job.ofConfig (Config.load later.files settings.configPath)).runIn later =
        (.ok config, later) := by
      rw [same, readable]
      rfl
    refine .after (show Job.files.runIn later = (.ok later.files, later) from rfl) ?_
    refine .after there ?_
    exact Job.late_withFiles _ format _ later
  unfold login
  split
  · exact (Job.Looks.throw _).traceless session
  · exact rest

theorem traceless_logout (format : Format) : (logout settings format).Traceless session := by
  refine .after .files fun files _ => ?_
  refine .after (.ofConfig _) fun config _ => ?_
  cases config.token with
  | none => exact (Job.Works.print format _).traceless session
  | some token => exact (Job.late_withFiles _ format _ session).traceless

end Account

/-! ## The command line -/

theorem Invocation.traceless_job (environment : Environment) (invocation : Invocation)
    (session : Session) : (invocation.job environment).Traceless session := by
  have looks : Job.Looks (do
      Job.ofConfig (Settings.load environment (← Job.files) invocation.globals)) :=
    .bind .files fun files => .ofConfig _
  unfold job
  cases invocation.command with
  | onServers named command =>
    refine .after (.ofConfig (assistantPath environment named)) fun path _ => ?_
    exact command.traceless_job path invocation.globals.format session
  | login email password =>
    refine .after looks fun settings found => ?_
    have loaded : Settings.load environment session.files invocation.globals = .ok settings := by
      cases h : Settings.load environment session.files invocation.globals with
      | error fault =>
        have stops : ((Job.ofConfig (.error fault) : Job Settings).runIn session).1 =
            .ok settings := by
          rw [← h]
          exact congrArg Prod.fst found
        cases stops
      | ok other =>
        have goes : ((Job.ofConfig (.ok other) : Job Settings).runIn session).1 = .ok settings := by
          rw [← h]
          exact congrArg Prod.fst found
        cases goes
        rfl
    obtain ⟨config, readable⟩ := Settings.load_config loaded
    exact Account.traceless_login invocation.globals.format email password readable
  | logout =>
    refine .after looks fun settings _ => ?_
    exact Account.traceless_logout invocation.globals.format
  | onInstances command =>
    refine .after looks fun settings _ => ?_
    refine .after (.ofResult _) fun context _ => ?_
    exact command.traceless_job context session
  | onSnapshots command =>
    refine .after looks fun settings _ => ?_
    refine .after (.ofResult _) fun context _ => ?_
    exact command.traceless_job context session

namespace Completion

/-- What a command line that ends in an error leaves behind, for every command line, environment,
files and answers of the API: all files are as they were, unless the error is that the output
refused what was printed. After an error in the arguments, the configuration or the token, and for a
server that is not there, the API has not been asked for anything. -/
theorem traceless_ofWords {environment : Environment} {words : List String} {session : Session}
    {e : Error} (failed : (ofWords environment words session).1 = .ran (.error e)) :
    (session.out.room = none ∨ e.isRefusal = false →
        (ofWords environment words session).2.files = session.files) ∧
      (e.isEarly → (ofWords environment words session).2.sent = session.sent) := by
  unfold ofWords at failed ⊢
  cases parsed : Invocation.parse environment words with
  | error refusal =>
    rw [parsed] at failed
    cases failed
  | ok invocation =>
    rw [parsed] at failed
    have ended : ((invocation.job environment).runIn session).1 = .error e := ran.inj failed
    obtain ⟨files, sent⟩ := invocation.traceless_job environment session
    exact ⟨files e ended, sent e ended⟩

def error? : Completion → Option Error
  | .ran (.error e) => some e
  | _ => none

theorem eq_of_error? {completion : Completion} {e : Error} (h : completion.error? = some e) :
    completion = .ran (.error e) := by
  cases completion with
  | refused refusal => cases h
  | ran result =>
    cases result with
    | ok a => cases h
    | error other =>
      cases h
      rfl

/-- A server that is there already is not added again: nothing is written and nothing sent. -/
theorem traceless_ofWords_add :
    let environment : Environment := ⟨[("HOME", "/h")], none⟩
    let words := ["mcp", "--client-config", "m", "add", "a", "--command", "x"]
    let files : Files := ⟨[(Path.ofString "m", .file (Text.utf8
      "\x7b\"mcpServers\":\x7b\"a\":0\x7d,\"other\":1\x7d") false)]⟩
    let session := Session.start [] files .unbounded
    (ofWords environment words session).1 = .ran (.error (.invalidArgument (.serverExists "a"))) ∧
      (ofWords environment words session).2.files = session.files ∧
      (ofWords environment words session).2.sent = session.sent := by
  intro environment words files session
  have failed : (ofWords environment words session).1 =
      .ran (.error (.invalidArgument (.serverExists "a"))) := by
    apply eq_of_error?
    decide +kernel
  have free : session.out.room = none := rfl
  clear_value session
  obtain ⟨kept, unsent⟩ := @traceless_ofWords environment words session _ failed
  exact ⟨failed, kept (.inl free), unsent rfl⟩

end Completion

end FleetControl
