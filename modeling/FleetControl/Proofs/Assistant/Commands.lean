import FleetControl.Command.Servers
import FleetControl.Proofs.Arguments.Pairs
import FleetControl.Proofs.Assistant.Registry
import FleetControl.Proofs.Command.Traceless
import FleetControl.Proofs.Text.Ordering

/-!
# Commands on servers as operations on a registry

A command on servers has a plan: what it prints and the document that the file is to hold then, or
why it fails. What is proved:

1. `Registry.settles_plan`: the registry of a document settles the plan of every command. It says
   whether there is one (`Registry.Permits`), what is printed (`Registry.Shows`) and what the file is
   to say (`Registry.after`). There is one lemma for each command.
2. `ServerCommand.runIn_job`: a command carries its plan out. It saves if it is to change anything,
   and prints what it planned to only once that was done.
-/

namespace FleetControl

/-! ## What a registry says about a command -/

def ServerCommand.reads : ServerCommand → Bool
  | .list => true
  | .describe _ => true
  | .add .. => false
  | .remove _ => false

namespace Registry

/-- The server under a name, if there is an entry that defines one. -/
def server? (registry : Registry) (name : String) : Option Server :=
  (registry.entries name).bind Server.ofEntry?

def Permits (registry : Registry) : ServerCommand → Prop
  | .list => ∀ name, (registry.entries name).isSome → (registry.server? name).isSome
  | .describe name => (registry.server? name).isSome
  | .add name _ _ env force =>
    (∀ pair ∈ env, (Pairs.split pair).isOk) ∧ ¬ Text.isBlankText name ∧
      (registry.entries name = none ∨ force)
  | .remove name => (registry.server? name).isSome

/-- The registry after a command that was possible. -/
def after (registry : Registry) : ServerCommand → Registry
  | .list => registry
  | .describe _ => registry
  | .add name program args env _ =>
    registry.set name (some (Server.plain program args (Pairs.given env)).toJson)
  | .remove name => registry.set name none

/-- Whether this is what a command prints that was possible. A list has every server once, in the
order of the bytes of their names; a server that was added is printed as it was given. -/
def Shows (registry : Registry) (path : String) : ServerCommand → Output → Prop
  | .list, output => ∃ list : List (String × Server), output = .servers list ∧
      (list.Pairwise fun a b => Text.utf8 a.1 < Text.utf8 b.1) ∧
      ∀ name server, (name, server) ∈ list ↔ registry.server? name = some server
  | .describe name, output => ∃ server, output = .oneServer name server ∧
      registry.server? name = some server ∧
      ∀ program args env, registry.entries name = some (Server.plain program args env).toJson →
        server = Server.plain program args env
  | .add name .., output =>
    output = .message (.done ("Added MCP server '" ++ name ++ "' to " ++ path))
  | .remove name, output => output = .message (.done ("Removed MCP server '" ++ name ++ "'"))

/-- Whether a registry explains the result of planning a command. -/
def Settles (registry : Registry) (path : String) (command : ServerCommand) :
    Except Error (Output × Document) → Prop
  | .ok (output, changed) =>
    registry.Permits command ∧ registry.Shows path command output ∧
      changed.Tells path (registry.after command)
  | .error _ => ¬ registry.Permits command

end Registry

/-! ## Planning a command -/

/-- What a command prints and the document that the file holds then, or why it fails. -/
def ServerCommand.plan (document : Document) : ServerCommand → Except Error (Output × Document)
  | .list => document.servers.map fun servers => (.servers servers, document)
  | .describe name => (document.get name).map fun server => (.oneServer name server, document)
  | .add name program args env force =>
    match Pairs.texts env with
    | .error fault => .error (.invalidArgument fault)
    | .ok env =>
      let (changed, added) := document.add name (Server.plain program args env) force
      added.map fun _ =>
        (.message (.done ("Added MCP server '" ++ name ++ "' to " ++ changed.path)), changed)
  | .remove name =>
    let (changed, removed) := document.remove name
    removed.map fun _ => (.message (.done ("Removed MCP server '" ++ name ++ "'")), changed)

namespace Document

variable {document : Document} {table : Json.Fields} {name : String} {entry : Json}

theorem toOption_serverOf (name : String) (entry : Json) :
    (serverOf name entry).toOption = (Json.ofValue Server.decoder entry).toOption := by
  rw [serverOf]
  cases Json.ofValue Server.decoder entry <;> rfl

theorem toOption_servers (found : document.table = .ok table)
    (sorted : ∀ kv ∈ table, kv.2.Sorted) :
    document.servers.toOption =
      table.mapM fun kv => (Server.ofEntry? kv.2).map fun server => (kv.1, server) := by
  have each : ∀ kv ∈ table, (do
      let server ← serverOf kv.1 kv.2
      pure (kv.1, server) : Except Error (String × Server)).toOption =
        (Server.ofEntry? kv.2).map fun server => (kv.1, server) := by
    intro kv hk
    rw [toOption_bind, toOption_serverOf, Server.toOption_ofValue (sorted kv hk)]
    cases Server.ofEntry? kv.2 <;> rfl
  have all : document.servers = table.mapM (fun kv => do
      let server ← serverOf kv.1 kv.2
      pure (kv.1, server)) := by
    rw [servers, found]
    rfl
  rw [all, toOption_mapM]
  clear sorted found all
  induction table with
  | nil => rfl
  | cons kv rest ih =>
    obtain ⟨first, others⟩ := List.forall_mem_cons.mp each
    rw [List.mapM_cons, List.mapM_cons, ih others]
    simp only [first]

theorem get_of_entry (found : document.table = .ok table) (here : table.get? name = some entry) :
    document.get name = serverOf name entry := by
  rw [get, found]
  simp only [bind, Except.bind, here]

theorem get_of_none (found : document.table = .ok table) (here : table.get? name = none) :
    document.get name = .error (notFound name) := by
  rw [get, found]
  simp only [bind, Except.bind, here]

theorem remove_of_entry (found : document.table = .ok table) (here : table.get? name = some entry) :
    (document.remove name).1 = document.withTable (table.erase name) ∧
      (document.remove name).2.toOption = (Json.ofValue Server.decoder entry).toOption := by
  unfold remove
  rw [found]
  dsimp only
  rw [here]
  dsimp only
  refine ⟨rfl, ?_⟩
  cases Json.ofValue Server.decoder entry <;> rfl

theorem remove_of_none (found : document.table = .ok table) (here : table.get? name = none) :
    document.remove name = (document.withTable table, .error (notFound name)) := by
  simp only [remove, found, here]

end Document

namespace Registry

variable {registry : Registry} {document : Document} {path : String}

theorem settles_list (tells : document.Tells path registry) :
    registry.Settles path .list (ServerCommand.list.plan document) := by
  obtain ⟨table, found, durable, entries⟩ := tells.exists_table
  obtain ⟨sorted, inner⟩ := Json.durable_object_iff.mp durable
  have read := Document.toOption_servers found fun kv hk => (inner kv hk).sorted
  -- The registry asks about names and the command goes through pairs; the table is sorted, so each
  -- pair is the one that its name finds.
  have total : registry.Permits .list ↔ ∀ kv ∈ table, (Server.ofEntry? kv.2).isSome := by
    simp only [Permits, server?, entries]
    constructor
    · intro all kv hk
      have here := sorted.mem_iff.mp hk
      simpa [here] using all kv.1 (by simp [here])
    · intro all name present
      obtain ⟨entry, here⟩ := Option.isSome_iff_exists.mp present
      simpa [here] using all (name, entry) (Dictionary.mem_of_get? here)
  rw [← Dictionary.isSome_mapM, ← read] at total
  rw [ServerCommand.plan]
  cases result : document.servers with
  | error e =>
    rw [result] at total
    intro possible
    exact absurd (total.mp possible) (by simp [Except.toOption])
  | ok list =>
    rw [result] at total read
    refine ⟨total.mpr rfl, ⟨list, rfl, ?_, ?_⟩, tells⟩
    · have ordered : list.Pairwise fun a b => a.1 < b.1 := by
        apply Dictionary.sorted_iff_keys.mpr
        rw [Dictionary.keys_mapM read.symm]
        exact Dictionary.sorted_iff_keys.mp sorted
      exact ordered.imp Text.utf8_lt_iff.mpr
    · intro name server
      rw [Dictionary.mem_mapM read.symm, server?, entries, Option.bind_eq_some_iff]
      simp only [sorted.mem_iff]

theorem server?_of_table (tells : document.Tells path registry) {table : Json.Fields}
    (found : document.table = .ok table) (name : String) :
    registry.server? name =
      (table.get? name).bind fun entry => (Json.ofValue Server.decoder entry).toOption := by
  obtain ⟨_, same, durable, entries⟩ := tells.exists_table
  cases found.symm.trans same
  rw [server?, entries]
  cases here : table.get? name with
  | none => rfl
  | some entry =>
    have inner := (Json.durable_object_iff.mp durable).2 _ (Dictionary.mem_of_get? here)
    exact (Server.toOption_ofValue inner.sorted).symm

theorem settles_describe (tells : document.Tells path registry) (name : String) :
    registry.Settles path (.describe name) ((ServerCommand.describe name).plan document) := by
  obtain ⟨table, found, -, -⟩ := tells.exists_table
  have server := server?_of_table tells found name
  rw [ServerCommand.plan]
  cases here : table.get? name with
  | none =>
    have absent : ¬ registry.Permits (.describe name) := by simp [Permits, server, here]
    rw [Document.get_of_none found here]
    exact absent
  | some entry =>
    rw [here, Option.bind_some, ← Document.toOption_serverOf name] at server
    rw [Document.get_of_entry found here]
    cases result : Document.serverOf name entry with
    | error e =>
      have absent : ¬ registry.Permits (.describe name) := by
        simp [Permits, server, result, Except.toOption]
      exact absent
    | ok shown =>
      rw [result] at server
      refine ⟨by simp [Permits, server, Except.toOption], ⟨shown, rfl, server, ?_⟩, tells⟩
      intro program args env given
      rw [server?, given, Option.bind_some, Server.ofEntry?_toJson] at server
      cases server
      rfl

theorem settles_add (tells : document.Tells path registry) (name program : String)
    (args env : List String) (force : Bool) :
    registry.Settles path (.add name program args env force)
      ((ServerCommand.add name program args env force).plan document) := by
  obtain ⟨table, found, durable, entries⟩ := tells.exists_table
  have read := Pairs.toOption_texts env
  rw [ServerCommand.plan]
  by_cases valid : ∀ pair ∈ env, (Pairs.split pair).isOk
  · rw [if_pos valid] at read
    rw [eq_ok_of_toOption read]
    simp only [Document.add, found]
    by_cases blank : Text.isBlankText name = true
    · rw [if_pos blank]
      exact fun possible => possible.2.1 blank
    · by_cases taken : (table.contains name && !force) = true
      · rw [if_neg blank, if_pos taken]
        intro possible
        have free := possible.2.2
        rw [entries] at free
        rcases free with free | free <;> simp [Dictionary.contains, free] at taken
      · rw [if_neg blank, if_neg taken]
        have free : registry.entries name = none ∨ force = true := by
          rw [entries]
          cases here : table.get? name <;> simp_all [Dictionary.contains]
        have entry := Server.durable_toJson program args (Pairs.sorted_given env)
        refine ⟨⟨valid, blank, free⟩, ?_, tells.insert found name (entry.mono (by decide))⟩
        show Output.message
          (.done ("Added MCP server '" ++ name ++ "' to " ++ document.path)) = _
        rw [tells.path]
  · rw [if_neg valid] at read
    cases result : Pairs.texts env with
    | ok _ =>
      rw [result] at read
      cases read
    | error fault =>
      intro possible
      exact valid possible.1

theorem settles_remove (tells : document.Tells path registry) (name : String) :
    registry.Settles path (.remove name) ((ServerCommand.remove name).plan document) := by
  obtain ⟨table, found, -, -⟩ := tells.exists_table
  have server := server?_of_table tells found name
  rw [ServerCommand.plan]
  cases here : table.get? name with
  | none =>
    have absent : ¬ registry.Permits (.remove name) := by simp [Permits, server, here]
    rw [Document.remove_of_none found here]
    exact absent
  | some entry =>
    obtain ⟨changed, read⟩ := Document.remove_of_entry found here
    rw [here, Option.bind_some, ← read] at server
    cases removal : document.remove name with
    | mk after removed =>
      rw [removal] at changed server
      cases removed with
      | error e =>
        have absent : ¬ registry.Permits (.remove name) := by
          simp [Permits, server, Except.toOption]
        exact absent
      | ok removed =>
        have present : registry.Permits (.remove name) := by
          simp [Permits, server, Except.toOption]
        have tells := tells.erase found name
        rw [← changed] at tells
        exact ⟨present, rfl, tells⟩

/-- The registry of a document settles the plan of every command. -/
theorem settles_plan (tells : document.Tells path registry) (command : ServerCommand) :
    registry.Settles path command (command.plan document) := by
  cases command with
  | list => exact settles_list tells
  | describe name => exact settles_describe tells name
  | add name program args env force => exact settles_add tells name program args env force
  | remove name => exact settles_remove tells name

end Registry

/-! ## Carrying a plan out -/

section Running

variable {path : String} {session : Session} {document : Document}

theorem Job.runIn_loaded (loaded : Document.load session.files path = .ok document)
    (next : Document → Job Unit) :
    Job.runIn (do
        let document ← Job.ofResult (Document.load (← Job.files) path)
        next document) session = (next document).runIn session := by
  change Job.runIn (Job.ofResult (Document.load session.files path) >>= next) session = _
  rw [Job.runIn_bind, Job.runIn_ofResult, loaded]

theorem ServerCommand.runIn_unread {e : Error} (command : ServerCommand) (format : Format)
    (unread : Document.load session.files path = .error e) :
    (command.job path format).runIn session = (.error e, session) := by
  unfold ServerCommand.job
  change Job.runIn (Job.ofResult (Document.load session.files path) >>= _) session = _
  rw [Job.runIn_bind, Job.runIn_ofResult, unread]

/-- What comes after saving a document happens in the files with it, or not at all. -/
theorem Job.runIn_saving (document : Document) (next : Job Unit) (session : Session) :
    (Job.withFiles document.save >>= fun _ => next).runIn session =
      match document.save session.files with
      | .error fault => (.error (.file fault), session)
      | .ok files => next.runIn { session with files } := by
  rw [Job.runIn_bind, Job.runIn_withFiles]
  cases document.save session.files <;> rfl

/-- A command on a file that can be read carries its plan out. -/
theorem ServerCommand.runIn_job (command : ServerCommand) (format : Format)
    (loaded : Document.load session.files path = .ok document) :
    (command.job path format).runIn session =
      match command.plan document with
      | .error e => (.error e, session)
      | .ok (output, changed) =>
        if command.reads then (Job.print format output).runIn session
        else
          match changed.save session.files with
          | .error fault => (.error (.file fault), session)
          | .ok files => (Job.print format output).runIn { session with files } := by
  unfold ServerCommand.job
  rw [Job.runIn_loaded loaded]
  cases command with
  | list =>
    dsimp only
    rw [Job.runIn_bind, Job.runIn_ofResult, plan]
    cases document.servers <;> rfl
  | describe name =>
    dsimp only
    rw [Job.runIn_bind, Job.runIn_ofResult, plan]
    cases document.get name <;> rfl
  | add name program args env force =>
    dsimp only
    rw [Job.runIn_bind, plan]
    cases Pairs.texts env with
    | error fault => rfl
    | ok env =>
      have server : { Server.ofCommand program with args, env } = Server.plain program args env := rfl
      simp only [Job.ofArgument, Job.runIn_pure, server]
      rw [Job.runIn_bind, Job.runIn_ofResult]
      rcases document.add name (Server.plain program args env) force with ⟨changed, _ | _⟩
      · rfl
      · exact Job.runIn_saving changed _ session
  | remove name =>
    dsimp only
    rw [Job.runIn_bind, Job.runIn_ofResult, plan]
    rcases document.remove name with ⟨changed, _ | _⟩
    · rfl
    · exact Job.runIn_saving changed _ session

end Running

end FleetControl
