import FleetControl.Proofs.Command.ExitStatus
import FleetControl.Proofs.Fleet.Events

/-!
# Which requests a command sends

1. `Job.Sends` says that all requests a job sends are of a kind. `Job.sent_ask_bind` is a job that
   begins with one request: what it sends after it may depend on the answer.
2. `Command.plan?` says of every command on the fleet with valid arguments whether it only reads or
   by which operation it changes something. `Operation.followed?` is the workflow to follow after the
   answer to an operation.
3. `sent_ofWords` ties the two: a command that reads sends nothing but reads, and one that changes
   something sends the change first and never again, and after it nothing but requests for the
   events of the workflow that the change started.
-/

namespace FleetControl

namespace Job

/-- Whether all requests that a job sends are of a kind. -/
def Sends {α : Type} (kind : Request → Prop) (job : Job α) : Prop :=
  ∀ session, ∃ requests, (job.runIn session).2.sent = session.sent ++ requests ∧
    ∀ request ∈ requests, kind request

namespace Sends

variable {α β : Type} {kind other : Request → Prop} {job : Job α} {next : α → Job β}

/-- A job that leaves the requests of its session as they are. -/
theorem of_sent (h : ∀ session, (job.runIn session).2.sent = session.sent) : job.Sends kind :=
  fun session => ⟨[], by rw [h, List.append_nil], List.forall_mem_nil _⟩

theorem mono (sends : job.Sends kind) (more : ∀ request, kind request → other request) :
    job.Sends other := by
  intro session
  obtain ⟨requests, sent, all⟩ := sends session
  exact ⟨requests, sent, fun request hr => more request (all request hr)⟩

theorem bind (first : job.Sends kind) (rest : ∀ a, (next a).Sends kind) :
    (job >>= next).Sends kind := by
  intro session
  obtain ⟨requests, sent, all⟩ := first session
  rw [runIn_bind]
  cases run : job.runIn session with
  | mk result later =>
    rw [run] at sent
    cases result with
    | error e => exact ⟨requests, sent, all⟩
    | ok a =>
      obtain ⟨more, sent', all'⟩ := rest a later
      refine ⟨requests ++ more, ?_, ?_⟩
      · dsimp only
        rw [sent', sent, List.append_assoc]
      · intro request hr
        exact (List.mem_append.mp hr).elim (all request) (all' request)

theorem ofResult (result : Except Error α) : (Job.ofResult result).Sends kind :=
  of_sent fun session => by rw [runIn_ofResult]

theorem write (writer : Text.Sink → Text.Sink × Except Error Unit) : (Job.write writer).Sends kind :=
  of_sent fun session => by rw [runIn_write]

theorem print (format : Format) (output : Output) : (Job.print format output).Sends kind := by
  unfold Job.print
  exact write _

theorem printLine (line : String) : (Job.printLine line).Sends kind := by
  unfold Job.printLine
  exact write _

theorem throw (e : Error) : (MonadExcept.throw e : Job α).Sends kind :=
  of_sent fun session => by rw [runIn_throw]

end Sends

/-- A request that is not answered is the last thing that a session does. -/
theorem runIn_ask_nil (request : Request) {session : Session} (h : session.answers = []) :
    (ask (.ok request)).runIn session =
      (.error .interrupted, { session with sent := session.sent ++ [request] }) := by
  have exchanged : exchange request session =
      (.error .interrupted, { session with sent := session.sent ++ [request] }) := by
    unfold exchange
    simp only [h]
  change (ofResult ((exchange request session).1.bind fun answer => answer.accepted request)).runIn
    (exchange request session).2 = _
  rw [exchanged, runIn_ofResult]
  rfl

/-- A job that begins with a request sends it first. What it sends after it belongs to the body of an
answer that the API gave to this request. -/
theorem sent_ask_bind {α : Type} (request : Request) {next : String → Job α}
    {kind : String → Request → Prop} (rest : ∀ body, (next body).Sends (kind body))
    (session : Session) :
    ∃ later, ((ask (.ok request) >>= next).runIn session).2.sent =
        session.sent ++ request :: later ∧
      ∀ other ∈ later, ∃ answer body, session.answers.head? = some answer ∧
        answer.accepted request = .ok body ∧ kind body other := by
  rw [runIn_bind]
  cases answers : session.answers with
  | nil =>
    rw [runIn_ask_nil request answers]
    exact ⟨[], rfl, List.forall_mem_nil _⟩
  | cons answer others =>
    rw [runIn_ask request answers]
    cases accepted : answer.accepted request with
    | error e => exact ⟨[], rfl, List.forall_mem_nil _⟩
    | ok body =>
      obtain ⟨later, sent, all⟩ := rest body
        { session with sent := session.sent ++ [request], answers := others }
      refine ⟨later, ?_, fun other ho => ⟨answer, body, rfl, accepted, all other ho⟩⟩
      dsimp only
      rw [sent, List.append_assoc, List.singleton_append]

theorem sends_ask (prepared : Except RequestFault Request) :
    (ask prepared).Sends fun request => prepared = .ok request := by
  intro session
  cases prepared with
  | error fault => exact ⟨[], (List.append_nil _).symm, List.forall_mem_nil _⟩
  | ok request =>
    have nothing : ∀ body, (pure body : Job String).Sends fun _ => False :=
      fun body => .of_sent fun _ => rfl
    obtain ⟨later, sent, none⟩ := sent_ask_bind request nothing session
    rw [bind_pure] at sent
    refine ⟨request :: later, sent, ?_⟩
    intro other ho
    rcases List.mem_cons.mp ho with rfl | ho
    · rfl
    · obtain ⟨-, -, -, -, false⟩ := none other ho
      exact false.elim

end Job

theorem Method.text_ne_get {method : Method} (changes : method ≠ .get) : method.text ≠ "GET" := by
  cases method with
  | get => exact absurd rfl changes
  | post | patch | delete => decide

theorem FleetContext.method_of_request {context : FleetContext} {operation : Operation}
    {request : Request} (prepared : context.request operation = .ok request) :
    request.method = operation.method := by
  unfold FleetContext.request Client.request Client.prepare at prepared
  split at prepared
  · cases prepared
  · split at prepared
    · cases prepared
      rfl
    · cases prepared

/-! ## Following a workflow -/

namespace Fetch

theorem mem_sent_collectFrom {client : Client} {query : Query} {left : Nat} {token : Option String}
    {start : Fetch} {answers : List Answer} {request : Request}
    (h : request ∈ (collectFrom client query left token start answers).sent) :
    ∃ token, client.request query.scope (Operation.ofQuery query token) = .ok request := by
  induction left generalizing token start answers with
  | zero => exact absurd h List.not_mem_nil
  | succ left ih =>
    unfold collectFrom at h
    cases ask : client.request query.scope (Operation.ofQuery query token) with
    | error fault =>
      rw [ask] at h
      exact absurd h List.not_mem_nil
    | ok own =>
      rw [ask] at h
      have only (h : request ∈ [own]) : ∃ token,
          client.request query.scope (Operation.ofQuery query token) = .ok request :=
        ⟨token, List.mem_singleton.mp h ▸ ask⟩
      cases answers with
      | nil => exact only h
      | cons answer rest =>
        dsimp only at h
        cases read : readPage own answer with
        | error e =>
          rw [read] at h
          exact only h
        | ok page =>
          rw [read] at h
          dsimp only at h
          cases follows : page.follows token with
          | none =>
            rw [follows] at h
            exact only h
          | some next =>
            rw [follows] at h
            rcases List.mem_cons.mp h with rfl | h
            · exact ⟨token, ask⟩
            · exact ih h

theorem mem_gatherFrom {client : Client} {query : Query} {fuel : Nat} {answers : List Answer}
    {collected : Collected} (h : collected ∈ gatherFrom client query fuel answers) :
    ∃ answers, collected = collect client query answers := by
  induction fuel generalizing answers with
  | zero => exact absurd h List.not_mem_nil
  | succ fuel ih =>
    unfold gatherFrom at h
    dsimp only at h
    cases result : (collect client query answers).result with
    | none =>
      rw [result] at h
      exact ⟨answers, List.mem_singleton.mp h⟩
    | some brought =>
      rw [result] at h
      rcases List.mem_cons.mp h with rfl | h
      · exact ⟨answers, rfl⟩
      · exact ih h

end Fetch

namespace Follow

/-- Following a workflow asks for nothing but its events. -/
theorem sends_job (client : Client) (query : Query) (format : Format) (interval : Nat) :
    (job client query format interval).Sends fun request =>
      ∃ token, client.request query.scope (Operation.ofQuery query token) = .ok request := by
  refine Job.Sends.bind ?_ fun ending => ?_
  · intro session
    refine ⟨_, rfl, ?_⟩
    intro request hr
    obtain ⟨collected, hc, hr⟩ := List.mem_flatMap.mp hr
    obtain ⟨answers, rfl⟩ := Fetch.mem_gatherFrom (List.mem_of_mem_take hc)
    exact Fetch.mem_sent_collectFrom hr
  · unfold conclude
    cases ending with
    | clockEnded => exact .throw _
    | concluded conclusion =>
      cases conclusion with
      | ok report => exact .print format _
      | error e =>
        dsimp only
        split
        · exact (Job.Sends.printLine _).bind fun _ => .throw _
        · exact .throw _

end Follow

/-! ## The commands -/

namespace Operation

/-- The name of the action whose workflow an operation starts, and the id of the instance that it
acts on, unless the API gives that one. -/
def starts? : Operation → Option (String × Option String)
  | .createInstance _ => some ("create", none)
  | .modifyInstance id _ => some ("modify", some id)
  | .deleteInstance id => some ("delete", some id)
  | .power id .start => some ("start", some id)
  | .power id .stop => some ("stop", some id)
  | .power id .restart => some ("restart", some id)
  | .restoreSnapshot _ _ _ => some ("restore", none)
  | _ => none

/-- The instance and the action of the workflow that an operation started, by the body of its
answer. -/
def workflow? (operation : Operation) (body : String) : Option (String × String) :=
  operation.starts?.bind fun (action, named) =>
    let id := named <|> (Answer.decode Answer.instanceIdDecoder body).toOption
    id.map fun id => (id, action)

/-- The workflow to follow after an answer to an operation: none if the API refused it. -/
def followed? (operation : Operation) : Answer → Option (String × String)
  | .dropped | .failed _ => none
  | .answered status body =>
    if Answer.isSuccess status then operation.workflow? (Answer.bodyOf status body) else none

theorem followed?_of_accepted (operation : Operation) {request : Request} {answer : Answer}
    {body : String} (h : answer.accepted request = .ok body) :
    operation.followed? answer = operation.workflow? body := by
  cases answer with
  | dropped | failed => cases h
  | answered status text =>
    unfold Answer.accepted at h
    unfold followed?
    dsimp only at h ⊢
    split at h
    · next success =>
      cases h
      rw [if_pos success]
    · cases h

end Operation

/-- How a command uses the API. -/
inductive Plan where
  /-- It only reads. -/
  | reading
  /-- It does one operation that changes something, and may wait for its workflow. -/
  | changing (operation : Operation) (waits : Bool)

/-- The requests that a plan allows, with the answers that the API has. A request that cannot be
sent at all is the end of a change. -/
def Plan.Allows (context : FleetContext) (answers : List Answer) (requests : List Request) :
    Plan → Prop
  | .reading => ∀ request ∈ requests, request.method.text = "GET"
  | .changing operation waits =>
    match context.request operation with
    | .error _ => requests = []
    | .ok first => first.method.text ≠ "GET" ∧ ∃ later, requests = first :: later ∧
      ∀ request ∈ later, waits ∧ ∃ answer id action token,
        answers.head? = some answer ∧ operation.followed? answer = some (id, action) ∧
        request.AsksForEvents context.client context.scope id action true token

def Job.Obeys (context : FleetContext) (plan : Plan) (job : Job Unit) : Prop :=
  ∀ session, ∃ requests, (job.runIn session).2.sent = session.sent ++ requests ∧
    plan.Allows context session.answers requests

def Change.plan (change : Change) : Plan :=
  .changing change.operation change.waiting.wait

/-- How a command on instances uses the API, if its arguments are valid. -/
def InstanceCommand.plan? : InstanceCommand → Option Plan
  | .list => some .reading
  | .describe _ => some .reading
  | .workflow _ _ _ => some .reading
  | command => command.change?.map Change.plan

/-- How a command on snapshots uses the API, if its arguments are valid. -/
def SnapshotCommand.plan? : SnapshotCommand → Option Plan
  | .list _ => some .reading
  | .describe _ _ => some .reading
  | .create instanceId => some (.changing (.createSnapshot instanceId) false)
  | .delete id instanceId => some (.changing (.deleteSnapshot instanceId id) false)
  | command => command.change?.map Change.plan

/-- How a command on the fleet uses the API, if its arguments are valid. -/
def Command.plan? : Command → Option Plan
  | .onInstances command => command.plan?
  | .onSnapshots command => command.plan?
  | _ => none

namespace FleetContext

variable {context : FleetContext}

theorem obeys_fetch {α : Type} {decoder : Json.Decoder α} {operation : Operation}
    (reads : operation.method.text = "GET") (shown : α → Output) :
    (context.fetch decoder operation >>= fun a => context.print (shown a)).Obeys context
      .reading := by
  have asks : (Job.ask (context.request operation)).Sends fun request =>
      request.method.text = "GET" :=
    (Job.sends_ask _).mono fun request prepared => method_of_request prepared ▸ reads
  have whole : (context.fetch decoder operation >>= fun a => context.print (shown a)).Sends
      fun request => request.method.text = "GET" :=
    .bind (.bind asks fun body => .ofResult _) fun a => .print context.format (shown a)
  exact whole

/-- An acknowledgement asks for the workflow that it is about, and only if that is wanted. -/
theorem sends_acknowledge (message : Message) (id : String) (action : Action) (waiting : Waiting) :
    (context.acknowledge message id action waiting).Sends fun request => waiting.wait ∧
      ∃ token, request.AsksForEvents context.client context.scope id action.text true token := by
  unfold acknowledge
  cases waits : waiting.wait with
  | false => exact .bind (.print context.format _) fun _ => .of_sent fun _ => rfl
  | true =>
    have follows : (context.follow id action waiting.seconds).Sends fun request => true = true ∧
        ∃ token, request.AsksForEvents context.client context.scope id action.text true token :=
      (Follow.sends_job _ _ _ _).mono fun request ⟨token, prepared⟩ =>
        ⟨rfl, token, Client.asksForEvents prepared⟩
    cases context.format.isJson with
    | false => exact .bind (.print context.format _) fun _ => follows
    | true => exact follows

/-- An operation that changes something is asked for first. What comes after it may follow its
workflow. -/
theorem obeys_ask {operation : Operation} {waits : Bool} {next : String → Job Unit}
    (changes : operation.method.text ≠ "GET")
    (rest : ∀ body, (next body).Sends fun request => waits ∧ ∃ id action token,
      operation.workflow? body = some (id, action) ∧
      request.AsksForEvents context.client context.scope id action true token) :
    (Job.ask (context.request operation) >>= next).Obeys context (.changing operation waits) := by
  intro session
  unfold Plan.Allows
  dsimp only
  cases prepared : context.request operation with
  | error fault => exact ⟨[], (List.append_nil _).symm, rfl⟩
  | ok first =>
    obtain ⟨later, sent, all⟩ := Job.sent_ask_bind first rest session
    refine ⟨first :: later, sent, method_of_request prepared ▸ changes, later, rfl, ?_⟩
    intro request hr
    obtain ⟨answer, body, head, accepted, waits, id, action, token, follows, events⟩ :=
      all request hr
    rw [← operation.followed?_of_accepted accepted] at follows
    exact ⟨waits, answer, id, action, token, head, follows, events⟩

end FleetContext

theorem Change.workflow?_of_idIn {change : Change} {body id : String}
    (starts : change.operation.starts? = some (change.action.text, change.instanceId))
    (h : change.idIn body = .ok id) :
    change.operation.workflow? body = some (id, change.action.text) := by
  unfold Operation.workflow?
  rw [starts]
  unfold idIn at h
  split at h
  · next named =>
    cases h
    rw [named]
    rfl
  · next named =>
    rw [named, Option.bind_some]
    dsimp only
    rw [h]
    rfl

theorem Change.obeys_job {change : Change} (context : FleetContext) (message : String → Message)
    (changes : change.operation.method.text ≠ "GET")
    (starts : change.operation.starts? = some (change.action.text, change.instanceId)) :
    (change.job context message).Obeys context change.plan := by
  refine FleetContext.obeys_ask changes fun body => ?_
  cases hi : change.idIn body with
  | error e => exact .throw e
  | ok id =>
    refine (FleetContext.sends_acknowledge (message id) id change.action change.waiting).mono ?_
    rintro request ⟨waits, token, events⟩
    exact ⟨waits, id, change.action.text, token, workflow?_of_idIn starts hi, events⟩

theorem InstanceCommand.starts_of_change {command : InstanceCommand} {change : Change}
    (h : command.change? = some change) :
    change.operation.method.text ≠ "GET" ∧
      change.operation.starts? = some (change.action.text, change.instanceId) := by
  cases command with
  | create resource cloudProvider region params waiting =>
    obtain ⟨fields, -, rfl⟩ := Option.map_eq_some_iff.mp h
    exact ⟨Method.text_ne_get nofun, rfl⟩
  | modify id params waiting =>
    unfold change? at h
    dsimp only at h
    split at h
    · cases h
    · obtain ⟨fields, -, rfl⟩ := Option.map_eq_some_iff.mp h
      exact ⟨Method.text_ne_get nofun, rfl⟩
  | delete =>
    cases h
    exact ⟨Method.text_ne_get nofun, rfl⟩
  | power action =>
    cases h
    refine ⟨Method.text_ne_get nofun, ?_⟩
    cases action <;> rfl
  | list | describe | workflow => cases h

theorem SnapshotCommand.starts_of_change {command : SnapshotCommand} {change : Change}
    (h : command.change? = some change) :
    change.operation.method.text ≠ "GET" ∧
      change.operation.starts? = some (change.action.text, change.instanceId) := by
  cases command with
  | restore id instanceId params waiting =>
    obtain ⟨fields, -, rfl⟩ := Option.map_eq_some_iff.mp h
    exact ⟨Method.text_ne_get nofun, rfl⟩
  | list | describe | create | delete => cases h

theorem InstanceCommand.obeys_change {command : InstanceCommand} {plan : Plan}
    (planned : command.change?.map Change.plan = some plan) (context : FleetContext) :
    (command.job context).Obeys context plan := by
  obtain ⟨change, changes, rfl⟩ := Option.map_eq_some_iff.mp planned
  obtain ⟨message, same⟩ := job_of_change context changes
  obtain ⟨alters, starts⟩ := starts_of_change changes
  rw [same]
  exact change.obeys_job context message alters starts

theorem InstanceCommand.obeys_job {command : InstanceCommand} {plan : Plan}
    (planned : command.plan? = some plan) (context : FleetContext) :
    (command.job context).Obeys context plan := by
  cases command with
  | list =>
    cases planned
    exact FleetContext.obeys_fetch rfl fun list => .instances list
  | describe id =>
    cases planned
    exact FleetContext.obeys_fetch rfl fun shown => .oneInstance shown
  | workflow id action seconds =>
    cases planned
    have reads : (context.follow id action seconds).Sends fun request =>
        request.method.text = "GET" :=
      (Follow.sends_job _ _ _ _).mono fun request ⟨token, prepared⟩ =>
        (Client.asksForEvents prepared).method
    show (context.follow id action seconds).Obeys context _
    exact reads
  | create | modify | delete | power =>
    refine obeys_change ?_ context
    exact planned

theorem SnapshotCommand.obeys_change {command : SnapshotCommand} {plan : Plan}
    (planned : command.change?.map Change.plan = some plan) (context : FleetContext) :
    (command.job context).Obeys context plan := by
  obtain ⟨change, changes, rfl⟩ := Option.map_eq_some_iff.mp planned
  obtain ⟨message, same⟩ := job_of_change context changes
  obtain ⟨alters, starts⟩ := starts_of_change changes
  rw [same]
  exact change.obeys_job context message alters starts

theorem SnapshotCommand.obeys_job {command : SnapshotCommand} {plan : Plan}
    (planned : command.plan? = some plan) (context : FleetContext) :
    (command.job context).Obeys context plan := by
  cases command with
  | list instanceId =>
    cases planned
    exact FleetContext.obeys_fetch rfl fun list => .snapshots instanceId list
  | describe id instanceId =>
    cases planned
    exact FleetContext.obeys_fetch rfl fun shown => .oneSnapshot shown
  | create instanceId =>
    cases planned
    unfold job FleetContext.fetch Job.askFor
    dsimp only
    rw [bind_assoc]
    refine FleetContext.obeys_ask ?changes fun body => ?rest
    case changes => exact Method.text_ne_get nofun
    case rest => exact .bind (.ofResult _) fun id => .print context.format _
  | delete id instanceId =>
    cases planned
    unfold job FleetContext.perform
    dsimp only
    rw [bind_assoc]
    refine FleetContext.obeys_ask ?changes fun body => ?rest
    case changes => exact Method.text_ne_get nofun
    case rest => exact .bind (.of_sent fun _ => rfl) fun _ => .print context.format _
  | restore =>
    refine obeys_change ?_ context
    exact planned

/-! ## The command line -/

/-- Where a command line on the fleet works, if its settings say so. -/
def Invocation.context? (environment : Environment) (files : Files) (invocation : Invocation) :
    Option FleetContext :=
  match Settings.load environment files invocation.globals with
  | .error _ => none
  | .ok settings => (settings.context invocation.globals.format).toOption

theorem Invocation.runIn_unsettled {environment : Environment} {invocation : Invocation}
    {session : Session} {plan : Plan} (planned : invocation.command.plan? = some plan)
    (unsettled : invocation.context? environment session.files = none) :
    ((invocation.job environment).runIn session).2 = session := by
  have first : (Job.runIn (do
      Job.ofConfig (Settings.load environment (← Job.files) invocation.globals)) session) =
        (Job.ofConfig (Settings.load environment session.files invocation.globals)).runIn session :=
    rfl
  have stops : ∀ next : FleetContext → Job Unit, (Job.runIn (do
        let settings ← (do Job.ofConfig (Settings.load environment (← Job.files) invocation.globals))
        let context ← Job.ofResult (settings.context invocation.globals.format)
        next context) session).2 = session := by
    intro next
    unfold context? at unsettled
    rw [Job.runIn_bind, first]
    cases loaded : Settings.load environment session.files invocation.globals with
    | error fault => rfl
    | ok settings =>
      rw [loaded] at unsettled
      change (Job.runIn (Job.ofResult (settings.context _) >>= next) session).2 = _
      rw [Job.runIn_bind, Job.runIn_ofResult]
      cases placed : settings.context invocation.globals.format with
      | error e => rfl
      | ok context =>
        dsimp only at unsettled
        rw [placed] at unsettled
        cases unsettled
  unfold job
  cases hc : invocation.command with
  | onInstances command => exact stops command.job
  | onSnapshots command => exact stops command.job
  | login | logout | onServers =>
    rw [hc] at planned
    cases planned

theorem Invocation.sent_job {environment : Environment} {invocation : Invocation}
    {session : Session} {plan : Plan} {context : FleetContext}
    (planned : invocation.command.plan? = some plan)
    (settled : invocation.context? environment session.files = some context) :
    ∃ requests, ((invocation.job environment).runIn session).2.sent = session.sent ++ requests ∧
      plan.Allows context session.answers requests := by
  unfold context? at settled
  split at settled
  · cases settled
  · next settings loaded =>
    have placed := eq_ok_of_toOption settled
    cases hc : invocation.command with
    | onInstances command =>
      rw [hc] at planned
      rw [runIn_onInstances loaded placed hc]
      exact command.obeys_job planned context session
    | onSnapshots command =>
      rw [hc] at planned
      rw [runIn_onSnapshots loaded placed hc]
      exact command.obeys_job planned context session
    | login | logout | onServers =>
      rw [hc] at planned
      cases planned

namespace Completion

/-- The requests of a command on the fleet whose arguments are valid, whatever the API answers.

Without an address, a token or an environment there are none. A command that only reads sends reads.
A command that changes something sends the one request for it first and never again; after it there
is nothing, unless the command waits and the API accepted the request. Then all that is sent is
asking for events of the workflow that `Operation.followed?` tells by the operation and the first
answer: in the same environment, of the action that the operation starts, and on the instance that
the command names or, for one that is new, that the answer names. -/
theorem sent_ofWords {environment : Environment} {words : List String} {session : Session}
    {invocation : Invocation} {plan : Plan}
    (parsed : Invocation.parse environment words = .ok invocation)
    (planned : invocation.command.plan? = some plan) :
    ∃ requests, (ofWords environment words session).2.sent = session.sent ++ requests ∧
      match invocation.context? environment session.files with
      | none => requests = []
      | some context => plan.Allows context session.answers requests := by
  have run : (ofWords environment words session).2 =
      ((invocation.job environment).runIn session).2 := by
    unfold ofWords
    rw [parsed]
  rw [run]
  cases settled : invocation.context? environment session.files with
  | none =>
    rw [Invocation.runIn_unsettled planned settled]
    exact ⟨[], (List.append_nil _).symm, rfl⟩
  | some context => exact Invocation.sent_job planned settled

/-- A snapshot of `i-1` is restored into an instance that the API calls `i-9`. -/
def restoration : List String :=
  ["--config", "c", "snapshot", "restore", "ss-1", "--instance", "i-1", "--wait"]

/-- What is followed is the new instance. A fetch that fails is made again, the restore is not. -/
theorem sent_ofWords_restore :
    let environment : Environment := ⟨[("HOME", "/h")], none⟩
    let session := Session.start [.answered 200 "\x7b\"id\":\"i-9\"\x7d", .dropped,
      .answered 200 "\x7b\"workflowInfo\":\x7b\"status\":\"success\"\x7d\x7d"]
      deletionFiles .unbounded
    let context : FleetContext := ⟨⟨"http://a", some "t"⟩, ⟨"s", "e"⟩, .table, 10000⟩
    let sent := (ofWords environment restoration session).2.sent
    let below := "/2022-09-01-00/fleet/service/s/environment/e/instance/"
    let events := below ++ "i-9/workflow-events?actionType=restore&enhancedStatus=true"
    sent.map (fun request => (request.method.text, request.address.target)) =
        [("POST", below ++ "i-1/snapshot/ss-1/restore"), ("GET", events), ("GET", events)] ∧
      ∀ request ∈ sent.tail, ∃ token,
        request.AsksForEvents context.client context.scope "i-9" "restore" true token := by
  intro environment session context sent below events
  have targets : sent.map (fun request => (request.method.text, request.address.target)) =
      [("POST", below ++ "i-1/snapshot/ss-1/restore"), ("GET", events), ("GET", events)] := by
    decide +kernel
  have parsed : Invocation.parse environment restoration =
      .ok ⟨⟨none, none, none, .table, some "c", false⟩,
        .onSnapshots (.restore "ss-1" "i-1" [] ⟨true, none⟩)⟩ := by
    decide +kernel
  have settled : Invocation.context? environment session.files
      ⟨⟨none, none, none, .table, some "c", false⟩,
        .onSnapshots (.restore "ss-1" "i-1" [] ⟨true, none⟩)⟩ = some context := by
    decide +kernel
  have workflow : (Operation.restoreSnapshot "i-1" "ss-1" []).followed?
      (.answered 200 "\x7b\"id\":\"i-9\"\x7d") = some ("i-9", "restore") := by
    decide +kernel
  have planned : (Command.onSnapshots (.restore "ss-1" "i-1" [] ⟨true, none⟩)).plan? =
      some (.changing (.restoreSnapshot "i-1" "ss-1" []) true) := rfl
  have unsent : session.sent = [] := rfl
  have answered : session.answers.head? = some (.answered 200 "\x7b\"id\":\"i-9\"\x7d") := rfl
  have ran : sent = (ofWords environment restoration session).2.sent := rfl
  refine ⟨targets, ?_⟩
  -- the values are done with: what is left is read off the plan
  clear targets
  clear_value sent environment session context
  obtain ⟨requests, whole, allowed⟩ :=
    @sent_ofWords environment restoration session _ _ parsed planned
  rw [unsent, List.nil_append, ← ran] at whole
  rw [settled] at allowed
  unfold Plan.Allows at allowed
  dsimp only at allowed
  intro request hr
  rw [whole] at hr
  cases prepared : context.request (.restoreSnapshot "i-1" "ss-1" []) with
  | error fault =>
    rw [prepared] at allowed
    rw [allowed] at hr
    cases hr
  | ok first =>
    rw [prepared] at allowed
    obtain ⟨-, later, rfl, all⟩ := allowed
    obtain ⟨-, answer, id, action, token, head, follows, asks⟩ := all request hr
    obtain rfl := Option.some.inj (answered.symm.trans head)
    obtain ⟨rfl, rfl⟩ := Prod.mk.inj (Option.some.inj (workflow.symm.trans follows))
    exact ⟨token, asks⟩

end Completion

end FleetControl
