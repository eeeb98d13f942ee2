import FleetControl.Command.Run

/-!
# Commands that change something

1. `Change` is what the commands that may wait for a workflow have in common: one operation, the
   action that it starts, and how its answer names the instance.
2. `Command.change?` is the change that a command asks for, and `job_of_change` says that the
   command does exactly that: it asks once, reads the id and acknowledges it.
3. `Job.runIn_ask` and `Job.runIn_write` are what the two ways out of a session do to it.
-/

namespace FleetControl

/-- What a command changes: the operation, the action whose workflow it starts, the id of the
instance if the command names it, and whether to wait for the workflow. -/
structure Change where
  operation : Operation
  action : Action
  instanceId : Option String
  waiting : Waiting

/-- The change that a command on instances asks for, if its arguments are valid. -/
def InstanceCommand.change? : InstanceCommand → Option Change
  | .create resource cloudProvider region params waiting =>
    (Pairs.params params).toOption.map fun params =>
      ⟨.createInstance ⟨resource, cloudProvider, region, params⟩, .create, none, waiting⟩
  | .modify id params waiting =>
    if params.isEmpty then none
    else (Pairs.params params).toOption.map fun params =>
      ⟨.modifyInstance id params, .modify, some id, waiting⟩
  | .delete id waiting => some ⟨.deleteInstance id, .delete, some id, waiting⟩
  | .power action id waiting => some ⟨.power id action, action.action, some id, waiting⟩
  | _ => none

/-- The change that a command on snapshots asks for, if its arguments are valid and it may wait. -/
def SnapshotCommand.change? : SnapshotCommand → Option Change
  | .restore id instanceId params waiting =>
    (Pairs.params params).toOption.map fun params =>
      ⟨.restoreSnapshot instanceId id params, .restore, none, waiting⟩
  | _ => none

def Command.change? : Command → Option Change
  | .onInstances command => command.change?
  | .onSnapshots command => command.change?
  | _ => none

namespace Change

/-- The id of the instance: the one that the command names, or the one in the body of the answer. -/
def idIn (change : Change) (body : String) : Except Error String :=
  match change.instanceId with
  | some id => .ok id
  | none => Answer.decode Answer.instanceIdDecoder body

/-- The id of the instance after an answer, unless the API refused the change or gave no id. -/
def answered? (change : Change) : Answer → Option String
  | .dropped | .failed _ => none
  | .answered status body =>
    if Answer.isSuccess status then (change.idIn (Answer.bodyOf status body)).toOption else none

/-- Asks for a change once and acknowledges it. -/
def job (change : Change) (context : FleetContext) (message : String → Message) : Job Unit := do
  let body ← Job.ask (context.request change.operation)
  let id ← Job.ofResult (change.idIn body)
  context.acknowledge (message id) id change.action change.waiting

end Change

/-! ## The commands -/

theorem eq_ok_of_toOption {ε α : Type} {result : Except ε α} {a : α}
    (h : result.toOption = some a) : result = .ok a := by
  cases result with
  | error e => cases h
  | ok b =>
    cases h
    rfl

theorem InstanceCommand.job_of_change {command : InstanceCommand} {change : Change}
    (context : FleetContext) (h : command.change? = some change) :
    ∃ message, command.job context = change.job context message := by
  cases command with
  | create resource cloudProvider region params waiting =>
    obtain ⟨fields, hp, rfl⟩ := Option.map_eq_some_iff.mp h
    refine ⟨fun id => (Message.done ("Instance " ++ id ++ " created")).withId id, ?_⟩
    unfold InstanceCommand.job Change.job FleetContext.fetch Job.askFor Job.ofArgument Change.idIn
    simp only [eq_ok_of_toOption hp, pure_bind, bind_assoc]
  | modify id params waiting =>
    unfold change? at h
    dsimp only at h
    split at h
    · cases h
    · next given =>
      obtain ⟨fields, hp, rfl⟩ := Option.map_eq_some_iff.mp h
      refine ⟨fun id => .done ("Instance " ++ id ++ " modification requested"), ?_⟩
      unfold InstanceCommand.job Change.job FleetContext.perform Job.ofArgument Change.idIn Job.ofResult
      simp only [eq_ok_of_toOption hp, given, Bool.false_eq_true, if_false, pure_bind, bind_assoc]
  | delete id waiting =>
    cases h
    refine ⟨fun id => .done ("Instance " ++ id ++ " deletion requested"), ?_⟩
    unfold InstanceCommand.job Change.job FleetContext.perform Change.idIn Job.ofResult
    simp only [pure_bind, bind_assoc]
  | power action id waiting =>
    cases h
    refine ⟨fun id => .done ("Instance " ++ id ++ " " ++ action.segment ++ " requested"), ?_⟩
    unfold InstanceCommand.job Change.job FleetContext.perform Change.idIn Job.ofResult
    simp only [pure_bind, bind_assoc]
  | list | describe | workflow => cases h

theorem SnapshotCommand.job_of_change {command : SnapshotCommand} {change : Change}
    (context : FleetContext) (h : command.change? = some change) :
    ∃ message, command.job context = change.job context message := by
  cases command with
  | restore id instanceId params waiting =>
    obtain ⟨fields, hp, rfl⟩ := Option.map_eq_some_iff.mp h
    refine ⟨fun new => (Message.done
      ("Snapshot " ++ id ++ " restoring into instance " ++ new)).withId new, ?_⟩
    unfold SnapshotCommand.job Change.job FleetContext.fetch Job.askFor Job.ofArgument Change.idIn
    simp only [eq_ok_of_toOption hp, pure_bind, bind_assoc]
  | list | describe | create | delete => cases h

/-! ## Sessions -/

namespace Job

theorem runIn_ask (request : Request) {session : Session} {answer : Answer} {rest : List Answer}
    (h : session.answers = answer :: rest) :
    (ask (.ok request)).runIn session =
      (answer.accepted request,
        { session with sent := session.sent ++ [request], answers := rest }) := by
  have exchanged : exchange request session =
      (.ok answer, { session with sent := session.sent ++ [request], answers := rest }) := by
    unfold exchange
    simp only [h]
  change (ofResult ((exchange request session).1.bind fun answer => answer.accepted request)).runIn
    (exchange request session).2 = _
  rw [exchanged, runIn_ofResult]
  rfl

theorem runIn_write (writer : Text.Sink → Text.Sink × Except Error Unit) (session : Session) :
    (write writer).runIn session =
      ((writer session.out).2, { session with out := (writer session.out).1 }) := by
  change (ofResult (writer session.out).2).runIn { session with out := (writer session.out).1 } = _
  rw [runIn_ofResult]

end Job

/-! ## The answer to a change -/

theorem Answer.exitCode_accepted {request : Request} {answer : Answer} {e : Error}
    (h : answer.accepted request = .error e) : e.exitCode = 1 := by
  cases answer with
  | dropped | failed =>
    cases h
    rfl
  | answered status body =>
    unfold accepted at h
    dsimp only at h
    split at h
    · cases h
    · cases h
      rfl

theorem Answer.exitCode_decode {α : Type} {decoder : Json.Decoder α} {body : String} {e : Error}
    (h : decode decoder body = .error e) : e.exitCode = 1 := by
  unfold decode at h
  split at h
  · cases h
  · cases h
    rfl

namespace Change

variable {change : Change} {context : FleetContext} {request : Request} {session : Session}
  {answer : Answer} {rest : List Answer}

/-- The id after an answer does not depend on the request. -/
theorem toOption_idIn (change : Change) (request : Request) (answer : Answer) :
    ((answer.accepted request).bind change.idIn).toOption = change.answered? answer := by
  cases answer with
  | dropped | failed => rfl
  | answered status body =>
    unfold Answer.accepted answered?
    dsimp only
    split <;> rfl

theorem runIn_unsendable (message : String → Message) {fault : RequestFault}
    (prepared : context.request change.operation = .error fault) :
    (change.job context message).runIn session = (.error (.request fault), session) := by
  unfold job
  rw [Job.runIn_bind, prepared]
  rfl

theorem runIn_refused (message : String → Message)
    (prepared : context.request change.operation = .ok request)
    (answers : session.answers = answer :: rest) (refused : change.answered? answer = none) :
    ∃ e, (change.job context message).runIn session =
        (.error e, { session with sent := session.sent ++ [request], answers := rest }) ∧
      e.exitCode = 1 := by
  rw [← change.toOption_idIn request] at refused
  unfold job
  rw [Job.runIn_bind, prepared, Job.runIn_ask request answers]
  cases ha : answer.accepted request with
  | error e => exact ⟨e, rfl, Answer.exitCode_accepted ha⟩
  | ok body =>
    dsimp only
    rw [Job.runIn_bind, Job.runIn_ofResult]
    rw [ha] at refused
    cases hi : change.idIn body with
    | error e =>
      refine ⟨e, rfl, ?_⟩
      unfold idIn at hi
      split at hi
      · cases hi
      · exact Answer.exitCode_decode hi
    | ok id =>
      rw [show Except.bind (.ok body) change.idIn = .ok id from hi] at refused
      cases refused

theorem runIn_answered (message : String → Message) {id : String}
    (prepared : context.request change.operation = .ok request)
    (answers : session.answers = answer :: rest) (answered : change.answered? answer = some id) :
    (change.job context message).runIn session =
      (context.acknowledge (message id) id change.action change.waiting).runIn
        { session with sent := session.sent ++ [request], answers := rest } := by
  rw [← change.toOption_idIn request] at answered
  unfold job
  rw [Job.runIn_bind, prepared, Job.runIn_ask request answers]
  cases ha : answer.accepted request with
  | error e =>
    rw [ha] at answered
    cases answered
  | ok body =>
    rw [ha] at answered
    dsimp only
    rw [Job.runIn_bind, Job.runIn_ofResult,
      show change.idIn body = .ok id from eq_ok_of_toOption answered]

end Change

section Settled

variable {environment : Environment} {invocation : Invocation} {session : Session}
  {settings : Settings} {context : FleetContext}

theorem Settings.of_context {format : Format} (h : settings.context format = .ok context) :
    context.format = format ∧ context.interval = settings.interval := by
  unfold Settings.context at h
  cases client : settings.client with
  | error e =>
    rw [client] at h
    cases h
  | ok client' =>
    rw [client] at h
    cases scope : settings.scope with
    | error fault => simp only [scope] at h; cases h
    | ok scope' =>
      simp only [scope] at h
      cases h
      exact ⟨rfl, rfl⟩

theorem Job.runIn_settings
    (loaded : Settings.load environment session.files invocation.globals = .ok settings)
    (next : Settings → Job Unit) :
    Job.runIn (do
        next (← (do Job.ofConfig (Settings.load environment (← Job.files) invocation.globals))))
      session = (next settings).runIn session := by
  have first : Job.runIn (do
      Job.ofConfig (Settings.load environment (← Job.files) invocation.globals)) session =
        (.ok settings, session) := by
    change (Job.ofConfig (Settings.load environment session.files _)).runIn session = _
    rw [loaded]
    rfl
  rw [Job.runIn_bind, first]

/-- What is run in a place that the settings name is run there. -/
theorem Job.runIn_settled
    (loaded : Settings.load environment session.files invocation.globals = .ok settings)
    (placed : settings.context invocation.globals.format = .ok context)
    (next : FleetContext → Job Unit) :
    Job.runIn (do
        let settings ← (do Job.ofConfig (Settings.load environment (← Job.files) invocation.globals))
        let context ← Job.ofResult (settings.context invocation.globals.format)
        next context) session = (next context).runIn session := by
  rw [Job.runIn_settings loaded fun settings => do
      let context ← Job.ofResult (settings.context invocation.globals.format)
      next context,
    Job.runIn_bind, Job.runIn_ofResult, placed]

theorem Invocation.runIn_onInstances {command : InstanceCommand}
    (loaded : Settings.load environment session.files invocation.globals = .ok settings)
    (placed : settings.context invocation.globals.format = .ok context)
    (asked : invocation.command = .onInstances command) :
    (invocation.job environment).runIn session = (command.job context).runIn session := by
  unfold Invocation.job
  rw [asked]
  exact Job.runIn_settled loaded placed command.job

theorem Invocation.runIn_onSnapshots {command : SnapshotCommand}
    (loaded : Settings.load environment session.files invocation.globals = .ok settings)
    (placed : settings.context invocation.globals.format = .ok context)
    (asked : invocation.command = .onSnapshots command) :
    (invocation.job environment).runIn session = (command.job context).runIn session := by
  unfold Invocation.job
  rw [asked]
  exact Job.runIn_settled loaded placed command.job

/-- A command line that asks for a change runs it where its settings say. -/
theorem Invocation.runIn_job {change : Change}
    (loaded : Settings.load environment session.files invocation.globals = .ok settings)
    (placed : settings.context invocation.globals.format = .ok context)
    (changes : invocation.command.change? = some change) :
    ∃ message, (invocation.job environment).runIn session =
      (change.job context message).runIn session := by
  cases hc : invocation.command with
  | onInstances command =>
    rw [hc] at changes
    obtain ⟨message, h⟩ := InstanceCommand.job_of_change context changes
    exact ⟨message, h ▸ runIn_onInstances loaded placed hc⟩
  | onSnapshots command =>
    rw [hc] at changes
    obtain ⟨message, h⟩ := SnapshotCommand.job_of_change context changes
    exact ⟨message, h ▸ runIn_onSnapshots loaded placed hc⟩
  | login | logout | onServers =>
    rw [hc] at changes
    cases changes

end Settled

end FleetControl
