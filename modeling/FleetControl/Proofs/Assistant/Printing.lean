import FleetControl.Proofs.Assistant.Uses
import FleetControl.Proofs.Command.Documents

/-!
# What is printed of servers for programs

What is proved:

1. `Json.Legible.reads`: a program that reads the text of a value finds the value, and the last of two
   pairs with one key. `Json.Distinct` says that there are no such pairs.
2. `Server.get?_fields`: the fields of a server are the pairs of the entry that it was read from, but
   for empty arguments and variables.
3. `Server.shown_serverJson`: what is printed of a server shows its entry with its name
   (`Server.Shown`). The name is printed first and the fields that are kept last, so a field `name` of
   the entry is printed as well and is what a program finds.
4. `Server.distinct_serverJson`: that is the only way in which a key is printed twice.
5. `Use.reports` says all this of the commands that show one server and that list all of them.
-/

namespace FleetControl

/-! ## Keys that come twice -/

namespace Json

mutual
def Tree.Distinct : Tree → Prop
  | .array items => Tree.DistinctItems items
  | .object fields => (fields.map Prod.fst).Nodup ∧ Tree.DistinctFields fields
  | _ => True

def Tree.DistinctItems : List Tree → Prop
  | [] => True
  | item :: rest => item.Distinct ∧ Tree.DistinctItems rest

def Tree.DistinctFields : List (Option String × Tree) → Prop
  | [] => True
  | (_, t) :: rest => t.Distinct ∧ Tree.DistinctFields rest
end

namespace Tree

theorem map_fst_ofFields (fields : List (String × Json)) :
    (ofFields fields).map Prod.fst = (Dictionary.keys fields).map some := by
  induction fields with
  | nil => rfl
  | cons kv rest ih => exact congrArg (some kv.1 :: ·) ih

theorem distinctFields_iff {fields : List (String × Json)} :
    DistinctFields (ofFields fields) ↔ ∀ kv ∈ fields, (ofJson kv.2).Distinct := by
  induction fields with
  | nil => simp [ofFields, DistinctFields]
  | cons kv rest ih => simp only [ofFields, DistinctFields, ih, List.forall_mem_cons]

mutual
theorem distinct_ofJson : ∀ {v : Json}, v.Sorted → (ofJson v).Distinct
  | .null, _ | .bool _, _ | .int _, _ | .float _, _ | .string _, _ => trivial
  | .array _, sorted => distinctItems_ofItems sorted
  | .object fields, sorted => by
    refine ⟨?_, distinctFields_ofFields sorted.2⟩
    rw [map_fst_ofFields]
    exact sorted.1.nodup_keys.map fun _ _ => Option.some.inj

theorem distinctItems_ofItems : ∀ {items : List Json}, SortedItems items →
    DistinctItems (ofItems items)
  | [], _ => trivial
  | _ :: _, sorted => ⟨distinct_ofJson sorted.1, distinctItems_ofItems sorted.2⟩

theorem distinctFields_ofFields : ∀ {fields : List (String × Json)}, SortedFields fields →
    DistinctFields (ofFields fields)
  | [], _ => trivial
  | _ :: _, sorted => ⟨distinct_ofJson sorted.1, distinctFields_ofFields sorted.2⟩
end

end Tree

/-- Whether no object has a key twice where a value is written. -/
def Distinct (v : Json) : Prop :=
  (Tree.ofJson v).Distinct

/-- Whether a program reads a value from a text: all pairs as they are written, and the last one where
two have one key. -/
structure Reads (text : String) (v : Json) : Prop where
  tree : Tree.parse text = .ok (Tree.ofJson v)
  value : parse? text = some v.normal

theorem Legible.reads {v : Json} (legible : v.Legible) (deep : v.depth ≤ maxDepth) :
    Reads (v.pretty ++ "\n") v where
  tree := Tree.parse_legible legible
  value := by
    rw [parse?_of_tree (Tree.parse_legible legible)]
    exact Tree.toJson?_ofJson_normal v maxDepth deep

/-- Whether a value is an array without items or an object without pairs. -/
def isBare : Json → Bool
  | .array [] => true
  | .object [] => true
  | _ => false

end Json

/-! ## The fields of a server -/

namespace Server

open Json

variable {entry : Json.Fields} {server : Server} {name : String}

theorem ofEntry?_eq_some (h : ofEntry? (.object entry) = some server) :
    entry.get? "command" = some (.string server.command) ∧
      (entry.get? "args").elim (some []) texts? = some server.args ∧
      (entry.get? "env").elim (some []) pairs? = some server.env ∧
      server.extra = entry.filter fun kv => !known.contains kv.1 := by
  unfold ofEntry? at h
  dsimp only at h
  split at h
  · next command args env foundCommand foundArgs foundEnv =>
    cases h
    obtain ⟨v, found, text⟩ := Option.bind_eq_some_iff.mp foundCommand
    rw [text?_eq_some_iff.mp text] at found
    exact ⟨found, foundArgs, foundEnv, rfl⟩
  · cases h

def envJson (env : Dictionary String) : Json :=
  .object (env.map fun kv => (kv.1, .string kv.2))

theorem fields_eq (server : Server) :
    server.fields = [("command", .string server.command)] ++
      (if server.args.isEmpty then [] else [("args", Json.strings server.args)]) ++
      (if server.env.isEmpty then [] else [("env", envJson server.env)]) ++ server.extra :=
  rfl

/-- A list that is written unless it is empty is written as the entry has it, if that is not bare. -/
theorem get?_unlessEmpty {α : Type} {read : Json → Option (List α)} (write : List α → Json)
    {items : List α} {key : String} (inverse : ∀ v, read v = some items → v = write items)
    (bare : (write items).isBare = items.isEmpty)
    (found : (entry.get? key).elim (some []) read = some items) :
    Dictionary.get? (if items.isEmpty then [] else [(key, write items)]) key =
      (entry.get? key).filter fun v => !v.isBare := by
  cases here : entry.get? key with
  | none =>
    rw [here] at found
    cases found
    rfl
  | some v =>
    rw [here] at found
    rw [inverse v found, Option.filter_some, bare]
    cases items.isEmpty <;> simp [Dictionary.get?]

theorem get?_unlessEmpty_of_ne {c : Bool} {key other : String} (h : key ≠ other) (v : Json) :
    Dictionary.get? (if c then [] else [(key, v)]) other = none := by
  cases c <;> simp [Dictionary.get?, h]

/-- The fields of a server are the pairs of its entry, but for empty arguments and variables. -/
theorem get?_fields (h : ofEntry? (.object entry) = some server) (key : String) :
    Dictionary.get? server.fields key =
      if key ∈ ["args", "env"] then (entry.get? key).filter fun v => !v.isBare
      else entry.get? key := by
  obtain ⟨command, args, env, extra⟩ := ofEntry?_eq_some h
  have args := get?_unlessEmpty Json.strings (fun _ => texts?_eq_some)
    (by cases server.args <;> rfl) args
  have env := get?_unlessEmpty envJson (fun _ => pairs?_eq_some)
    (by cases server.env <;> rfl) env
  have kept := Dictionary.get?_filter (fun k => !known.contains k) entry key
  rw [← extra] at kept
  simp only [fields_eq, Dictionary.get?_append, kept]
  -- Of the four parts only one can have the key: the kept fields have none of the other three.
  by_cases isCommand : key = "command"
  · subst isCommand
    simp [Dictionary.get?, command]
  by_cases isArgs : key = "args"
  · subst isArgs
    rw [args, get?_unlessEmpty_of_ne (by decide)]
    simp [Dictionary.get?, known]
  by_cases isEnv : key = "env"
  · subst isEnv
    rw [env, get?_unlessEmpty_of_ne (by decide)]
    simp [Dictionary.get?, known]
  rw [get?_unlessEmpty_of_ne (Ne.symm isArgs), get?_unlessEmpty_of_ne (Ne.symm isEnv)]
  simp [Dictionary.get?, known, isCommand, isArgs, isEnv, Ne.symm isCommand]

theorem nodup_keys_fields (sorted : entry.Sorted)
    (h : ofEntry? (.object entry) = some server) : (Dictionary.keys server.fields).Nodup := by
  have kept : (Dictionary.keys server.extra).Nodup ∧ ∀ key ∈ known, key ∉ Dictionary.keys server.extra := by
    rw [(ofEntry?_eq_some h).2.2.2]
    refine ⟨?_, fun key member => ?_⟩
    · exact Dictionary.Sorted.nodup_keys (sorted.filter _)
    · rw [← Dictionary.get?_eq_none_iff, Dictionary.get?_filter (fun k => !known.contains k)]
      simp [member]
  obtain ⟨distinct, apart⟩ := kept
  have keys : Dictionary.keys server.fields =
      "command" :: ((if server.args.isEmpty then [] else ["args"]) ++
        (if server.env.isEmpty then [] else ["env"])) ++ Dictionary.keys server.extra := by
    rw [fields_eq]
    unfold Dictionary.keys
    cases server.args.isEmpty <;> cases server.env.isEmpty <;> simp
  -- The fields of its own are some of the known ones, in their order.
  have own : ("command" :: ((if server.args.isEmpty then [] else ["args"]) ++
      (if server.env.isEmpty then [] else ["env"]))).Sublist known := by
    cases server.args.isEmpty <;> cases server.env.isEmpty <;> decide
  rw [keys, List.nodup_append]
  refine ⟨own.nodup (by decide), distinct, fun key member other found same => ?_⟩
  exact apart key (own.subset member) (same ▸ found)

theorem mem_of_mem_fields (sorted : entry.Sorted) (h : ofEntry? (.object entry) = some server)
    {kv : String × Json} (member : kv ∈ server.fields) : kv ∈ entry := by
  have found := Dictionary.get?_of_mem (nodup_keys_fields sorted h) member
  rw [get?_fields h] at found
  apply Dictionary.mem_of_get?
  split at found
  · exact (Option.filter_eq_some_iff.mp found).1
  · exact found

/-! ## A server as it is printed -/

/-- Whether an entry has no field `name`. -/
def Unnamed (entry : Json) : Prop :=
  ∀ fields : Json.Fields, entry = .object fields → fields.get? "name" = none

/-- What a program finds under a key of the server of an entry: what the entry has there. Only
arguments and variables are left out if they are empty, and if the entry has no `name`, the name of
the server is there. -/
def shownAt (name : String) (entry : Json.Fields) (key : String) : Option Json :=
  if key ∈ ["args", "env"] then (entry.get? key).filter fun v => !v.isBare
  else if key = "name" then some ((entry.get? key).getD (.string name))
  else entry.get? key

/-- Whether a value shows the server of an entry under its name to a program that reads it. -/
def Shown (name : String) (entry value : Json) : Prop :=
  ∃ fields shown : Json.Fields, entry = .object fields ∧ value.normal = .object shown ∧
    ∀ key, shown.get? key = shownAt name fields key

/-- The name of the server is inserted first, so a field `name` of the entry takes its place. -/
theorem get?_printed (sorted : entry.Sorted) (h : ofEntry? (.object entry) = some server)
    (key : String) :
    (Dictionary.ofList (("name", .string name) :: server.fields)).get? key =
      shownAt name entry key := by
  show ((Dictionary.insert [] "name" (.string name)).insertAll server.fields).get? key = _
  unfold shownAt
  rw [Dictionary.get?_insertAll (nodup_keys_fields sorted h), get?_fields h,
    Dictionary.get?_insert]
  by_cases optional : key ∈ ["args", "env"]
  · have other : "name" ≠ key := by
      rintro rfl
      exact absurd optional (by decide)
    rw [if_pos optional, if_pos optional, if_neg other]
    exact Option.or_none
  · rw [if_neg optional, if_neg optional]
    by_cases own : key = "name"
    · subst own
      rw [if_pos rfl, if_pos rfl]
      cases entry.get? "name" <;> rfl
    · rw [if_neg (Ne.symm own), if_neg own]
      exact Option.or_none

theorem exists_fields {entry : Json} (h : ofEntry? entry = some server) :
    ∃ fields, entry = .object fields := by
  cases entry with
  | object fields => exact ⟨fields, rfl⟩
  | null | bool | int | float | string | array => cases h

section Printed

variable {entry : Json} {d : Nat}

/-- What holds of the name of a server and of every value of its entry holds of every value that is
printed of the server. -/
theorem forall_printed {p : Json → Prop} {fields : Json.Fields} (sorted : fields.Sorted)
    (h : ofEntry? (.object fields) = some server) (own : p (.string name))
    (all : ∀ kv ∈ fields, p kv.2) : ∀ kv ∈ ("name", .string name) :: server.fields, p kv.2 :=
  List.forall_mem_cons.mpr ⟨own, fun kv member => all kv (mem_of_mem_fields sorted h member)⟩

theorem legible_serverJson (sorted : entry.Sorted) (h : ofEntry? entry = some server)
    (legible : entry.Legible) : (Output.serverJson name server).Legible := by
  obtain ⟨fields, rfl⟩ := exists_fields h
  exact legibleFields_iff.mpr
    (forall_printed sorted.1 h trivial (legibleFields_iff.mp legible))

theorem depth_serverJson (sorted : entry.Sorted) (deep : entry.depth ≤ d + 1)
    (h : ofEntry? entry = some server) : (Output.serverJson name server).depth ≤ d + 1 := by
  obtain ⟨fields, rfl⟩ := exists_fields h
  exact depth_object_le_iff.mpr (forall_printed (p := fun v => v.depth ≤ d) sorted.1 h
    (Nat.zero_le _) (depth_object_le_iff.mp deep))

theorem shown_serverJson (sorted : entry.Sorted) (h : ofEntry? entry = some server) :
    Shown name entry (Output.serverJson name server) := by
  obtain ⟨fields, rfl⟩ := exists_fields h
  have inner : ∀ kv ∈ ("name", .string name) :: server.fields, kv.2.Sorted :=
    forall_printed sorted.1 h trivial (sortedFields_iff.mp sorted.2)
  exact ⟨fields, _, rfl, congrArg Json.object (normalFields_eq_insertAll inner []),
    get?_printed sorted.1 h⟩

theorem distinct_serverJson (sorted : entry.Sorted) (h : ofEntry? entry = some server) :
    (Output.serverJson name server).Distinct ↔ Unnamed entry := by
  obtain ⟨fields, rfl⟩ := exists_fields h
  have inner : ∀ kv ∈ ("name", .string name) :: server.fields, kv.2.Sorted :=
    forall_printed sorted.1 h trivial (sortedFields_iff.mp sorted.2)
  have keys := nodup_keys_fields sorted.1 h
  have found := get?_fields h "name"
  rw [if_neg (by decide)] at found
  have absent : Unnamed (.object fields) ↔ "name" ∉ Dictionary.keys server.fields := by
    rw [← Dictionary.get?_eq_none_iff, found]
    refine ⟨fun unnamed => unnamed fields rfl, fun none other same => ?_⟩
    cases same
    exact none
  rw [absent]
  -- Below the fields everything is a value of the entry, so only their keys can repeat.
  show (List.map Prod.fst (Tree.ofFields (("name", .string name) :: server.fields))).Nodup ∧ _ ↔ _
  rw [Tree.map_fst_ofFields]
  constructor
  · intro ⟨distinct, _⟩
    exact (List.nodup_cons.mp (List.Nodup.of_map _ distinct)).1
  · intro absent
    refine ⟨?_, Tree.distinctFields_iff.mpr fun kv member => Tree.distinct_ofJson (inner kv member)⟩
    exact (List.nodup_cons.mpr ⟨absent, keys⟩).map fun _ _ => Option.some.inj

end Printed

/-! ## All servers -/

section All

variable {table : Json.Fields} {servers : List (String × Server)}

/-- Whether these are the servers of the entries of a table, in its order. -/
def Are (table : Json.Fields) (servers : List (String × Server)) : Prop :=
  List.Forall₂ (fun kv s => s.1 = kv.1 ∧ ofEntry? kv.2 = some s.2) table servers

def printed (servers : List (String × Server)) : List Json :=
  servers.map fun s => Output.serverJson s.1 s.2

/-- What holds of what is printed of each server holds of all that is printed of them. -/
theorem forall₂_printed {p : String × Json → Json → Prop} (are : Are table servers)
    (each : ∀ kv ∈ table, ∀ server, ofEntry? kv.2 = some server →
      p kv (Output.serverJson kv.1 server)) :
    List.Forall₂ p table (printed servers) := by
  induction are with
  | nil => exact .nil
  | @cons kv s table servers first _ ih =>
    obtain ⟨here, others⟩ := List.forall_mem_cons.mp each
    refine .cons ?_ (ih others)
    have one := here s.2 first.2
    rw [← first.1] at one
    exact one

theorem forall_mem_printed {p : Json → Prop} (are : Are table servers)
    (each : ∀ kv ∈ table, ∀ server, ofEntry? kv.2 = some server →
      p (Output.serverJson kv.1 server)) : ∀ v ∈ printed servers, p v := by
  have all := forall₂_printed (p := fun _ v => p v) are each
  clear are each
  generalize printed servers = values at all
  induction all with
  | nil => exact List.forall_mem_nil _
  | cons first _ ih =>
    exact List.forall_mem_cons.mpr ⟨first, ih⟩

theorem distinct_printed (are : Are table servers) (sorted : ∀ kv ∈ table, kv.2.Sorted) :
    (Json.object [("servers", .array (printed servers))]).Distinct ↔
      ∀ kv ∈ table, Unnamed kv.2 := by
  have items : Tree.DistinctItems (Tree.ofItems (printed servers)) ↔
      ∀ kv ∈ table, Unnamed kv.2 := by
    induction are with
    | nil => simp [printed, Tree.ofItems, Tree.DistinctItems]
    | @cons kv s table servers first _ ih =>
      obtain ⟨here, others⟩ := List.forall_mem_cons.mp sorted
      rw [List.forall_mem_cons, ← ih others, ← @distinct_serverJson s.2 s.1 kv.2 here first.2]
      rfl
  rw [← items]
  show (["servers"].map some).Nodup ∧ Tree.DistinctItems _ ∧ True ↔ _
  simp

end All

end Server

/-! ## What the commands print -/

theorem Document.load_of_parse? {files : Files} {path content : String} {fields : Json.Fields}
    (text : files.readText (.ofString path) = .ok (some content))
    (visible : Text.isBlankText content = false)
    (parsed : Json.parse? content = some (.object fields)) :
    load files path = .ok ⟨path, fields⟩ := by
  unfold Json.parse? at parsed
  unfold load parse Json.read Json.Decoder.anyValue
  cases tree : Json.Tree.parse content with
  | error place =>
    rw [tree] at parsed
    cases parsed
  | ok tree' =>
    rw [tree] at parsed
    simp only [text, visible, tree, parsed]
    rfl

namespace Use

variable {use : Use} {files : Files} {path : String} {document : Document} {table : Json.Fields}

/-- Whether a use in these files succeeds, leaves them as they are and prints a text. -/
structure Prints (use : Use) (files : Files) (text : String) : Prop where
  exitCode : (use.run files).1.exitCode = 0
  same : (use.run files).2.files = files
  taken : (use.run files).2.out.taken.toList =
    use.session.out.taken.toList ++ Text.utf8 text

theorem prints_of_does {output : Output} (free : use.session.out.room = none)
    (does : use.Does files .json output files) : use.Prints files output.document where
  exitCode := does.succeeds free
  same := by rw [does.session]
  taken := by
    rw [does.session]
    show (output.write .json use.session.out).1.taken.toList = _
    rw [(output.write_json use.session.out).1, Text.Sink.taken_writeAll, free, Option.getD_none,
      List.take_length, output.join_document]

theorem prints_of_plan {command : ServerCommand} {output : Output}
    (loaded : Document.load files path = .ok document) (free : use.session.out.room = none)
    (asks : use.asked? = some (path, .json, command)) (reads : command.reads)
    (planned : command.plan document = .ok (output, document)) :
    use.Prints files output.document := by
  have ran := @ServerCommand.runIn_job path { use.session with files } document command .json
    loaded
  rw [planned] at ran
  dsimp only at ran
  rw [if_pos reads] at ran
  exact prints_of_does free (does_of_printed asks ran)

theorem reports_describe (loaded : Document.load files path = .ok document)
    (found : document.table = .ok table) (free : use.session.out.room = none) {name : String}
    {entry : Json} (asks : use.asked? = some (path, .json, .describe name))
    (here : table.get? name = some entry) (defined : (Server.ofEntry? entry).isSome) :
    ∃ v : Json, use.Prints files (v.pretty ++ "\n") ∧ Server.Shown name entry v ∧
      (v.Distinct ↔ Server.Unnamed entry) ∧
      (entry.Legible → Json.Reads (v.pretty ++ "\n") v) := by
  obtain ⟨sorted, deep⟩ :=
    Document.entries_of_load loaded found _ (Dictionary.mem_of_get? here)
  obtain ⟨server, read⟩ := Option.isSome_iff_exists.mp defined
  have fitted : Document.serverOf name entry = .ok server := by
    apply eq_ok_of_toOption
    rw [Document.toOption_serverOf, Server.toOption_ofValue sorted, read]
  have planned : (ServerCommand.describe name).plan document =
      .ok (.oneServer name server, document) := by
    rw [ServerCommand.plan, Document.get_of_entry found here, fitted]
    rfl
  have prints : use.Prints files (Output.oneServer name server).document :=
    prints_of_plan loaded free asks rfl planned
  refine ⟨Output.serverJson name server, prints, Server.shown_serverJson sorted read,
    Server.distinct_serverJson sorted read, fun legible => ?_⟩
  have room : (Output.serverJson name server).depth ≤ 124 + 1 :=
    Server.depth_serverJson sorted deep read
  exact (Server.legible_serverJson sorted read legible).reads (Nat.le_trans room (by decide))

theorem reports_list (loaded : Document.load files path = .ok document)
    (found : document.table = .ok table) (free : use.session.out.room = none)
    (asks : use.asked? = some (path, .json, .list))
    (defined : ∀ kv ∈ table, (Server.ofEntry? kv.2).isSome) :
    ∃ values : List Json,
      use.Prints files ((Json.object [("servers", .array values)]).pretty ++ "\n") ∧
      List.Forall₂ (fun kv v => Server.Shown kv.1 kv.2 v) table values ∧
      ((Json.object [("servers", .array values)]).Distinct ↔
        ∀ kv ∈ table, Server.Unnamed kv.2) ∧
      ((∀ kv ∈ table, kv.2.Legible) →
        Json.Reads ((Json.object [("servers", .array values)]).pretty ++ "\n")
          (.object [("servers", .array values)])) := by
  have inner := Document.entries_of_load loaded found
  have sorted : ∀ kv ∈ table, kv.2.Sorted := fun kv hk => (inner kv hk).1
  obtain ⟨servers, read⟩ := Option.isSome_iff_exists.mp (Dictionary.isSome_mapM.mpr defined)
  have are : Server.Are table servers := Dictionary.forall₂_mapM read
  have fitted : document.servers = .ok servers := by
    apply eq_ok_of_toOption
    rw [Document.toOption_servers found sorted, read]
  have planned : ServerCommand.list.plan document = .ok (.servers servers, document) := by
    rw [ServerCommand.plan, fitted]
    rfl
  have prints : use.Prints files (Output.servers servers).document :=
    prints_of_plan loaded free asks rfl planned
  refine ⟨Server.printed servers, prints, ?_, Server.distinct_printed are sorted,
    fun legible => ?_⟩
  · exact Server.forall₂_printed are fun kv hk server defines =>
      Server.shown_serverJson (sorted kv hk) defines
  · have readable : Json.LegibleItems (Server.printed servers) :=
      Json.legibleItems_iff.mpr (Server.forall_mem_printed are fun kv hk server defines =>
        Server.legible_serverJson (sorted kv hk) defines (legible kv hk))
    have room : ∀ v ∈ Server.printed servers, v.depth ≤ 124 + 1 :=
      Server.forall_mem_printed are fun kv hk server defines =>
        Server.depth_serverJson (sorted kv hk) (inner kv hk).2 defines
    have whole : (Json.object [("servers", .array (Server.printed servers))]).depth ≤ 126 + 1 := by
      rw [Json.depth_object_le_iff, List.forall_mem_singleton, Json.depth_array_le_iff]
      exact room
    exact Json.Legible.reads (v := .object [("servers", .array (Server.printed servers))])
      ⟨readable, trivial⟩ whole

/-- What the servers of a document that was loaded are printed as. Each one that is shown, and each of
all that are listed, is printed as its entry is stored, with the name of the server before it. No key
is printed twice, unless an entry has a field `name` of its own; then that field is what is read. A
program reads all of it from the text, if it can read back the numbers in the entries. -/
theorem reports (loaded : Document.load files path = .ok document)
    (found : document.table = .ok table) (free : use.session.out.room = none) :
    (∀ name entry, use.asked? = some (path, .json, .describe name) →
      table.get? name = some entry → (Server.ofEntry? entry).isSome →
      ∃ v : Json, use.Prints files (v.pretty ++ "\n") ∧ Server.Shown name entry v ∧
        (v.Distinct ↔ Server.Unnamed entry) ∧
        (entry.Legible → Json.Reads (v.pretty ++ "\n") v)) ∧
    (use.asked? = some (path, .json, .list) → (∀ kv ∈ table, (Server.ofEntry? kv.2).isSome) →
      ∃ values : List Json,
        use.Prints files ((Json.object [("servers", .array values)]).pretty ++ "\n") ∧
        List.Forall₂ (fun kv v => Server.Shown kv.1 kv.2 v) table values ∧
        ((Json.object [("servers", .array values)]).Distinct ↔
          ∀ kv ∈ table, Server.Unnamed kv.2) ∧
        ((∀ kv ∈ table, kv.2.Legible) →
          Json.Reads ((Json.object [("servers", .array values)]).pretty ++ "\n")
            (.object [("servers", .array values)]))) := by
  constructor
  · intro name entry asks here defined
    exact reports_describe loaded found free asks here defined
  · intro asks defined
    exact reports_list loaded found free asks defined

/-- A server with a double and one with a field `name`; the first is shown, then both are listed. -/
theorem reports_two :
    let files : Files := ⟨[(Path.ofString "m", .file (Text.utf8
      ("\x7b\n  \"mcpServers\": \x7b\n" ++
        "    \"db\": \x7b\n      \"args\": [],\n      \"command\": \"x\",\n" ++
        "      \"limit\": 1.5\n    \x7d,\n" ++
        "    \"old\": \x7b\n      \"command\": \"y\",\n      \"name\": null\n    \x7d\n" ++
        "  \x7d\n\x7d\n")) false)]⟩
    let db : Json := .object [("args", .array []), ("command", .string "x"),
      ("limit", .float ⟨false, 6755399441055744, -52⟩)]
    let old : Json := .object [("command", .string "y"), ("name", .null)]
    let one := typed "m" ["show", "db", "--format", "json"] .unbounded
    let all := typed "m" ["list", "--format", "json"] .unbounded
    Document.load files "m" = .ok ⟨"m", [("mcpServers", .object [("db", db), ("old", old)])]⟩ ∧
    (∃ v : Json, one.Prints files (v.pretty ++ "\n") ∧ Server.Shown "db" db v ∧
      (v.Distinct ↔ Server.Unnamed db) ∧ (db.Legible → Json.Reads (v.pretty ++ "\n") v)) ∧
    db.Legible ∧
    (∃ values : List Json,
      all.Prints files ((Json.object [("servers", .array values)]).pretty ++ "\n") ∧
      List.Forall₂ (fun kv v => Server.Shown kv.1 kv.2 v) [("db", db), ("old", old)] values ∧
      ((Json.object [("servers", .array values)]).Distinct ↔
        ∀ kv ∈ [("db", db), ("old", old)], Server.Unnamed kv.2) ∧
      ((∀ kv ∈ [("db", db), ("old", old)], kv.2.Legible) →
        Json.Reads ((Json.object [("servers", .array values)]).pretty ++ "\n")
          (.object [("servers", .array values)]))) ∧
    ∀ kv ∈ [("db", db), ("old", old)], kv.2.Legible := by
  intro files db old one all
  let table : Json.Fields := [("db", db), ("old", old)]
  let whole := Json.object [("mcpServers", .object table)]
  have half : Json.IsLegible ⟨false, 6755399441055744, -52⟩ := by decide +kernel
  have legible : ∀ kv ∈ table, kv.2.Legible := by
    simp [table, db, old, Json.Legible, Json.LegibleItems, Json.LegibleFields, half]
  have sorted : whole.Sorted := by
    refine ⟨?_, ⟨?_, ⟨?_, trivial, trivial, trivial, trivial⟩, ⟨?_, trivial, trivial, trivial⟩,
      trivial⟩, trivial⟩
    all_goals exact Dictionary.sorted_iff_keys.mpr (by decide +kernel)
  have defined : ∀ kv ∈ table, (Server.ofEntry? kv.2).isSome := by decide +kernel
  -- The text of the file is that of the document, so nothing has to be parsed here.
  have parsed : Json.parse? (whole.pretty ++ "\n") = some whole := by
    have readable : whole.Legible := ⟨Json.legibleFields_iff.mpr legible, trivial⟩
    rw [(readable.reads (by decide +kernel)).value, Json.normal_of_sorted sorted]
  have text : files.readText (.ofString "m") = .ok (some (whole.pretty ++ "\n")) := by
    apply eq_ok_of_toOption
    decide +kernel
  have loaded := Document.load_of_parse? text (Json.isBlankText_object _) parsed
  have found : (Document.mk "m" [("mcpServers", .object table)]).table = .ok table := rfl
  have asksOne : one.asked? = some ("m", .json, .describe "db") := by decide +kernel
  have asksAll : all.asked? = some ("m", .json, .list) := by decide +kernel
  have member : ("db", db) ∈ table := List.mem_cons_self
  refine ⟨loaded, ?_, legible _ member, ?_, legible⟩
  · exact (reports loaded found rfl).1 "db" db asksOne rfl (defined _ member)
  · exact (reports loaded found rfl).2 asksAll defined

/-- A server whose entry has a field `name` is printed with that key twice. -/
theorem prints_name_twice :
    let files : Files := ⟨[(Path.ofString "m", .file (Text.utf8
      ("\x7b\"mcpServers\":" ++
        "\x7b\"db\":\x7b\"command\":\"x\",\"name\":\"db\"\x7d\x7d\x7d")) false)]⟩
    let printed : Json :=
      .object [("name", .string "db"), ("command", .string "x"), ("name", .string "db")]
    (typed "m" ["show", "db", "--format", "json"] .unbounded).Prints files
        (printed.pretty ++ "\n") ∧
      Json.Reads (printed.pretty ++ "\n") printed ∧ ¬ printed.Distinct := by
  intro files printed
  have plain : printed.Plain := ⟨trivial, trivial, trivial, trivial⟩
  refine ⟨⟨by decide +kernel, by decide +kernel, by decide +kernel⟩,
    plain.legible.reads (by decide), ?_⟩
  intro ⟨distinct, _⟩
  exact absurd distinct (by decide)

end Use

end FleetControl
