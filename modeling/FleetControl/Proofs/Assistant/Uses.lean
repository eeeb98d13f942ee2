import FleetControl.Proofs.Assistant.Commands

/-!
# One command on servers after another

A `Use` is a command line with what it is run in, apart from the files. What is proved:

1. `Use.run_of_asks`: a use that asks for a command on servers runs that command and nothing else.
2. `Use.does_of_allowed` and `Use.fails_of_not_allowed` are the two ways in which a single use ends:
   it does what its registry says, or it fails and leaves all files as they are.
3. `Registry.explains_uses`: hence a file that can be read is, under any sequence of uses, the map
   that its registry is. The induction is on the uses; what it carries is that the file is loaded as a
   document that tells the registry, and that it stays as writable as it was.

The limits of this are in `Use.unlike_registry`: what was done before the output refuses its message
stays done, a file may be nested too deeply to be read, and one may be impossible to write.
-/

namespace FleetControl

/-! ## A single use -/

/-- A command line with what it is run in, apart from the files. -/
structure Use where
  environment : Environment
  words : List String
  session : Session

def Files.writable (files : Files) (path : String) : Bool :=
  (files.save (.ofString path) "").isOk

namespace Use

def run (use : Use) (files : Files) : Completion × Session :=
  Completion.ofWords use.environment use.words { use.session with files }

/-- The file and the command on servers that a use asks for, if it asks for one. -/
def asked? (use : Use) : Option (String × Format × ServerCommand) :=
  match Invocation.parse use.environment use.words with
  | .ok ⟨globals, .onServers named command⟩ =>
    (assistantPath use.environment named).toOption.map fun path => (path, globals.format, command)
  | _ => none

/-- A command on servers for the file at a path, as it is typed. -/
def typed (path : String) (words : List String) (out : Text.Sink) : Use :=
  ⟨⟨[], none⟩, ["mcp", "--client-config", path] ++ words, Session.start [] .empty out⟩

/-- Whether a use does its work: it writes what it has to print and leaves these files, whatever the
output takes of it. It succeeds if the output takes everything. -/
structure Does (use : Use) (files : Files) (format : Format) (output : Output) (after : Files) :
    Prop where
  result : (use.run files).1 = .ran (output.write format use.session.out).2
  session : (use.run files).2 =
    { use.session with files := after, out := (output.write format use.session.out).1 }
  succeeds : use.session.out.room = none → (use.run files).1.exitCode = 0

/-- Whether a use fails and changes nothing. -/
structure Fails (use : Use) (files : Files) : Prop where
  exitCode : (use.run files).1.exitCode ≠ 0
  session : (use.run files).2 = { use.session with files }

end Use

namespace Registry

/-- Whether a command succeeds on a file that says this: it is possible, and if it changes something
the file can be written. -/
def Allows (registry : Registry) (writable : Bool) (command : ServerCommand) : Prop :=
  registry.Permits command ∧ (command.reads ∨ writable)

/-- Whether uses of the file at a path, one after the other, are explained by a registry. Each finds
what the registry says in the file. One that is allowed shows what the registry shows, and the next
finds the registry after it; any other fails, and the next finds the very same files. -/
def Explains (path : String) (writable : Bool) : Registry → Files → List Use → Prop
  | registry, files, [] => files.said? path = some registry
  | registry, files, use :: uses =>
    files.said? path = some registry ∧
      ∃ format command, use.asked? = some (path, format, command) ∧
        (registry.Allows writable command →
          ∃ output after, registry.Shows path command output ∧ use.Does files format output after ∧
            (command.reads → after = files) ∧
            (registry.after command).Explains path writable after uses) ∧
        (¬ registry.Allows writable command →
          use.Fails files ∧ registry.Explains path writable files uses)

end Registry

/-! ## How a single use ends -/

theorem Files.writable_of_save {files saved : Files} {path content : String}
    (h : files.save (.ofString path) content = .ok saved) :
    files.writable path = true ∧ saved.writable path = true := by
  refine ⟨?_, isOk_save_again h ""⟩
  rw [writable, isOk_save files (.ofString path) "" content, h]
  rfl

namespace Use

variable {use : Use} {files : Files} {path : String} {format : Format} {command : ServerCommand}
  {document : Document} {registry : Registry}

theorem run_of_asks (asks : use.asked? = some (path, format, command)) (files : Files) :
    use.run files =
      ((.ran ((command.job path format).runIn { use.session with files }).1),
        ((command.job path format).runIn { use.session with files }).2) := by
  unfold asked? at asks
  split at asks
  · next globals named command parsed =>
    obtain ⟨place, placed, same⟩ := Option.map_eq_some_iff.mp asks
    cases same
    have job : Invocation.job use.environment ⟨globals, .onServers named command⟩ =
        command.job path globals.format := by
      unfold Invocation.job
      dsimp only
      rw [eq_ok_of_toOption placed]
      rfl
    unfold run Completion.ofWords
    rw [parsed]
    simp only [job]
  · cases asks

theorem does_of_printed {output : Output} {after : Files}
    (asks : use.asked? = some (path, format, command))
    (ran : (command.job path format).runIn { use.session with files } =
      (Job.print format output).runIn { use.session with files := after }) :
    use.Does files format output after := by
  have ended := run_of_asks asks files
  rw [ran, Job.print, Job.runIn_write] at ended
  refine ⟨?_, ?_, fun free => ?_⟩
  · rw [ended]
  · rw [ended]
  · rw [ended, (Output.write_unbounded output format free).1]
    rfl

theorem fails_of_error {e : Error} (asks : use.asked? = some (path, format, command))
    (ran : (command.job path format).runIn { use.session with files } =
      (.error e, { use.session with files })) : use.Fails files := by
  have ended := run_of_asks asks files
  rw [ran] at ended
  refine ⟨?_, ?_⟩
  · rw [ended]
    exact e.exitCode_ne_zero
  · rw [ended]

theorem fails_of_unread {e : Error} (asks : use.asked? = some (path, format, command))
    (unread : Document.load files path = .error e) : use.Fails files :=
  fails_of_error asks
    (@ServerCommand.runIn_unread path { use.session with files } e command format unread)

/-- A use that is allowed does what the registry says, and leaves a file that says what the registry
says after it. -/
theorem does_of_allowed (asks : use.asked? = some (path, format, command))
    (loaded : Document.load files path = .ok document) (tells : document.Tells path registry)
    (allowed : registry.Allows (files.writable path) command) :
    ∃ output after, registry.Shows path command output ∧ use.Does files format output after ∧
      (command.reads → after = files) ∧ after.writable path = files.writable path ∧
      ∃ changed, Document.load after path = .ok changed ∧
        changed.Tells path (registry.after command) := by
  have settled := registry.settles_plan tells command
  have ran := @ServerCommand.runIn_job path { use.session with files } document command format
    loaded
  cases planned : command.plan document with
  | error e =>
    rw [planned] at settled
    exact absurd allowed.1 settled
  | ok plan =>
    obtain ⟨output, changed⟩ := plan
    rw [planned] at settled ran
    obtain ⟨-, shows, changes⟩ := settled
    dsimp only at ran
    by_cases reads : command.reads = true
    · rw [if_pos reads] at ran
      have same : registry.after command = registry := by
        cases command <;> first | rfl | cases reads
      refine ⟨output, files, shows, does_of_printed asks ran, fun _ => rfl, rfl, document, loaded,
        ?_⟩
      rw [same]
      exact tells
    · rw [if_neg reads] at ran
      -- Whether a file can be saved does not depend on its text, so any document will do.
      have possible : (changed.save files).isOk := by
        rw [Document.save, changes.path, Files.isOk_save files (.ofString path) _ ""]
        exact allowed.2.resolve_left reads
      cases saved : changed.save files with
      | error fault =>
        rw [saved] at possible
        cases possible
      | ok after =>
        rw [saved] at ran
        have written := saved
        rw [Document.save, changes.path] at written
        obtain ⟨before, later⟩ := Files.writable_of_save written
        refine ⟨output, after, shows, does_of_printed asks ran, fun h => absurd h reads,
          later.trans before.symm, changed, changes.load_save saved, changes⟩

theorem fails_of_not_allowed (asks : use.asked? = some (path, format, command))
    (loaded : Document.load files path = .ok document) (tells : document.Tells path registry)
    (refused : ¬ registry.Allows (files.writable path) command) : use.Fails files := by
  have settled := registry.settles_plan tells command
  have ran := @ServerCommand.runIn_job path { use.session with files } document command format
    loaded
  cases planned : command.plan document with
  | error e =>
    rw [planned] at ran
    exact fails_of_error asks ran
  | ok plan =>
    obtain ⟨output, changed⟩ := plan
    rw [planned] at settled ran
    obtain ⟨possible, -, changes⟩ := settled
    have stuck : ¬ (command.reads = true ∨ files.writable path = true) := fun h =>
      refused ⟨possible, h⟩
    obtain ⟨writes, locked⟩ := not_or.mp stuck
    dsimp only at ran
    rw [if_neg writes] at ran
    cases saved : changed.save files with
    | error fault =>
      rw [saved] at ran
      exact fails_of_error asks ran
    | ok after =>
      rw [Document.save, changes.path] at saved
      exact absurd (Files.writable_of_save saved).1 locked

end Use

/-! ## Uses one after the other -/

namespace Registry

theorem explains_of_tells {path : String} {writable : Bool} {uses : List Use} {files : Files}
    {document : Document} {registry : Registry} (same : files.writable path = writable)
    (loaded : Document.load files path = .ok document) (tells : document.Tells path registry)
    (asked : ∀ use ∈ uses, ∃ format command, use.asked? = some (path, format, command)) :
    registry.Explains path writable files uses := by
  have said : files.said? path = some registry := by
    simp [Files.said?, loaded, Except.toOption, tells.said]
  induction uses generalizing files document registry with
  | nil => exact said
  | cons use uses ih =>
    obtain ⟨⟨format, command, asks⟩, others⟩ := List.forall_mem_cons.mp asked
    refine ⟨said, format, command, asks, fun allowed => ?_, fun refused => ?_⟩
    · rw [← same] at allowed
      obtain ⟨output, after, shows, does, kept, still, changed, reloaded, changes⟩ :=
        Use.does_of_allowed asks loaded tells allowed
      refine ⟨output, after, shows, does, kept, ih (still.trans same) reloaded changes others ?_⟩
      simp [Files.said?, reloaded, Except.toOption, changes.said]
    · rw [← same] at refused
      exact ⟨Use.fails_of_not_allowed asks loaded tells refused, ih same loaded tells others said⟩

/-- The file of an assistant is a map from names to entries, with everything else in it constant. It
may be any that can be read as a document with a table, where all numbers are integers of 64 bits,
and the uses may be any sequence of command lines for it. -/
theorem explains_uses {path : String} {files : Files} {document : Document} {registry : Registry}
    (loaded : Document.load files path = .ok document) (said : document.said? = some registry)
    (plain : (Json.object document.fields).Plain) {uses : List Use}
    (asked : ∀ use ∈ uses, ∃ format command, use.asked? = some (path, format, command)) :
    registry.Explains path (files.writable path) files uses :=
  explains_of_tells rfl loaded (Document.tells_of_load loaded said plain) asked

/-- A server is added beside an entry that defines none, shown and taken out again. -/
theorem explains_uses_add :
    let document : Document :=
      ⟨"m", [("mcpServers", .object [("a", .int 0)]), ("other", .null)]⟩
    let registry : Registry :=
      ⟨Dictionary.get? [("a", .int 0)], Dictionary.get? [("other", .null)]⟩
    let files : Files := ⟨[(Path.ofString "m", .file (Text.utf8
      "\x7b\n  \"mcpServers\": \x7b\n    \"a\": 0\n  \x7d,\n  \"other\": null\n\x7d\n") false)]⟩
    let uses := [Use.typed "m" ["add", "b", "--command", "x", "--env", "K=V"] .unbounded,
      Use.typed "m" ["show", "b"] .unbounded, Use.typed "m" ["list"] .unbounded,
      Use.typed "m" ["remove", "b"] (.bounded 3)]
    Document.load files "m" = .ok document ∧ document.said? = some registry ∧
      registry.Explains "m" (files.writable "m") files uses := by
  intro document registry files uses
  have said : document.said? = some registry := rfl
  have plain : (Json.object document.fields).Plain := by
    simp [document, Json.Plain, Json.PlainFields, Json.InRange]
  have ordered : Dictionary.Sorted document.fields :=
    Dictionary.sorted_iff_keys.mpr (by decide +kernel)
  have sorted : (Json.object document.fields).Sorted :=
    ⟨ordered, ⟨List.pairwise_singleton _ _, trivial, trivial⟩, trivial, trivial⟩
  have deep : (Json.object document.fields).depth ≤ Json.maxDepth := by decide
  -- The text of the file is what saving the document writes, so nothing has to be parsed here.
  have saved : document.save .empty = .ok files := by
    apply eq_ok_of_toOption
    decide +kernel
  have loaded : Document.load files "m" = .ok document :=
    Document.Tells.load_save ⟨rfl, ⟨plain, sorted, deep⟩, said⟩ saved
  have asked : ∀ use ∈ uses, ∃ format command, use.asked? = some ("m", format, command) := by
    simp only [uses, List.forall_mem_cons]
    refine ⟨⟨.table, .add "b" "x" [] ["K=V"] false, ?_⟩, ⟨.table, .describe "b", ?_⟩,
      ⟨.table, .list, ?_⟩, ⟨.table, .remove "b", ?_⟩, List.forall_mem_nil _⟩
    all_goals decide +kernel
  clear_value document registry files uses
  exact ⟨loaded, said, explains_uses loaded said plain asked⟩

end Registry

/-! ## Where a registry is not enough -/

/-- An array in an array and so on, `n` times. -/
def Json.nested : Nat → Json
  | 0 => .array []
  | n + 1 => .array [Json.nested n]

theorem Json.plain_nested (n : Nat) : (Json.nested n).Plain := by
  induction n with
  | zero => trivial
  | succ n ih => exact ⟨ih, trivial⟩

/-- Three uses that fail although their registry permits them. In the first the output refuses the
message, when the file is written already; in the second the file is an object, but nested too
deeply; in the third there is no file, and none can be written. -/
theorem Use.unlike_registry :
    let add (path : String) (out : Text.Sink) := typed path ["add", "db", "--command", "x"] out
    let list := typed "m" ["list"] .unbounded
    let deep : Json := .object [("a", Json.nested 126)]
    let tall : Files := ⟨[(Path.ofString "m", .file (Text.utf8 deep.compact) false)]⟩
    let flat : Files := ⟨[(Path.ofString "m", .file [] false)]⟩
    (Files.empty.readText (.ofString "m") = .ok none ∧
      (add "m" (.bounded 0)).asked? = some ("m", .table, .add "db" "x" [] [] false) ∧
      ((add "m" (.bounded 0)).run .empty).1.exitCode ≠ 0 ∧
      ((add "m" (.bounded 0)).run .empty).2.files ≠ .empty) ∧
    (Json.Tree.parse deep.compact = .ok (Json.Tree.ofJson deep) ∧
      list.asked? = some ("m", .table, .list) ∧ (list.run tall).1.exitCode ≠ 0) ∧
    (flat.readText (.ofString "m/x") = .ok none ∧
      (add "m/x" .unbounded).asked? = some ("m/x", .table, .add "db" "x" [] [] false) ∧
      ((add "m/x" .unbounded).run flat).1.exitCode ≠ 0) := by
  intro add list deep tall flat
  refine ⟨by decide +kernel, ?_, by decide +kernel⟩
  have plain : deep.Plain := ⟨Json.plain_nested 126, trivial⟩
  have parsed := Json.Tree.parse_compact plain
  have asked : list.asked? = some ("m", .table, .list) := by decide +kernel
  have text : tall.readText (.ofString "m") = .ok (some deep.compact) :=
    @Files.readText_put .empty (.ofString "m") deep.compact false (by decide +kernel)
      (by decide +kernel)
  have visible : Text.isBlankText deep.compact = false := by
    simp [deep, Json.compact, Json.compactChars, Text.isBlankText, Text.isBlank]
  have none : (Json.Tree.ofJson deep).toJson? Json.maxDepth = none := by
    rw [← Option.isNone_iff_eq_none]
    decide +kernel
  have unread := Document.load_of_no_value text visible parsed none
  exact ⟨parsed, asked, (fails_of_unread asked unread).exitCode⟩

end FleetControl
