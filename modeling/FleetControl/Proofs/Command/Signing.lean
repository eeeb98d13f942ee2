import FleetControl.Proofs.Assistant.Uses
import FleetControl.Proofs.Settings.Storing

/-!
# Signing in and out touches only the token

A use of the program is a command line with its environment and its session; uses come one after the
other on the same files.

What is proved, for uses that sign in or out with one configuration file and print to an output that
takes everything:

1. `Account.saved_of_login`, `Account.saved_of_logout`: what succeeded stored the configuration it
   found with the token of the answer, or without a token.
2. `Use.signed_of_signs`: a use leaves a file that is loaded as the configuration it found with the
   token of the use, and leaves all files as they are if it fails or has nothing to take out
   (`Use.Signed`).
3. `Use.touches_token`: so any number of uses change nothing but the token, which is that of the last
   use that succeeded.
-/

namespace FleetControl

/-- The token in an answer to signing in, if the API accepted the request. -/
def Answer.token? : Answer → Option String
  | .dropped | .failed _ => none
  | .answered status body =>
    if isSuccess status then (Json.read tokenDecoder (bodyOf status body)).toOption else none

namespace Job

variable {α β : Type} {session : Session}

theorem eq_ok_of_runIn_bind {job : Job α} {next : α → Job β} {b : β}
    (h : ((job >>= next).runIn session).1 = .ok b) :
    ∃ a, (job.runIn session).1 = .ok a ∧
      (job >>= next).runIn session = (next a).runIn (job.runIn session).2 := by
  rcases runIn_bind_cases job next session with ⟨e, -, run⟩ | found
  · rw [run] at h
    cases h
  · exact found

theorem answer_of_askFor {decoder : Json.Decoder α} {prepared : Except RequestFault Request}
    {a : α} (h : ((askFor decoder prepared).runIn session).1 = .ok a) :
    ∃ status body rest, session.answers = .answered status body :: rest ∧
      Answer.isSuccess status = true ∧ Json.read decoder (Answer.bodyOf status body) = .ok a := by
  obtain ⟨body, asked, run⟩ := eq_ok_of_runIn_bind h
  have goes : ((Job.ofResult (Answer.decode decoder body)).runIn
      ((ask prepared).runIn session).2).1 = .ok a := by
    rw [← h]
    exact (congrArg Prod.fst run).symm
  rw [runIn_ofResult] at goes
  cases prepared with
  | error fault => cases asked
  | ok request =>
    cases answers : session.answers with
    | nil =>
      rw [runIn_ask_nil request answers] at asked
      cases asked
    | cons answer rest =>
      rw [runIn_ask request answers] at asked
      cases answer with
      | dropped | failed => cases asked
      | answered status text =>
        simp only [Answer.accepted] at asked
        split at asked
        · next success =>
          cases asked
          refine ⟨status, text, rest, rfl, success, ?_⟩
          unfold Answer.decode at goes
          split at goes
          · next read =>
            cases goes
            exact read
          · cases goes
        · cases asked

end Job

namespace Account

variable {settings : Settings} {session : Session} {config : Config}

theorem saved_of_store {path : String} {token : Option String} {format : Format} {output : Output}
    (h : ((do store path config token; Job.print format output : Job Unit).runIn session).1 =
      .ok ()) :
    ({ config with token }).save session.files path =
      .ok ((do store path config token; Job.print format output : Job Unit).runIn
        session).2.files := by
  obtain ⟨_, stored, run⟩ := Job.eq_ok_of_runIn_bind h
  rw [run]
  have kept : ((Job.print format output).runIn
      ((store path config token).runIn session).2).2.files =
        ((store path config token).runIn session).2.files := (Job.Works.print format output).files _
  unfold store at stored kept ⊢
  rw [kept, Job.runIn_withFiles]
  rw [Job.runIn_withFiles] at stored
  cases saved : { config with token }.save session.files path with
  | error fault =>
    simp only [saved] at stored
    cases stored
  | ok files => rfl

theorem runIn_readable {next : Config → Job Unit}
    (readable : Config.load session.files settings.configPath = .ok config) :
    (do next (← Job.ofConfig (Config.load (← Job.files) settings.configPath)) : Job Unit).runIn
      session = (next config).runIn session := by
  rw [Job.runIn_bind, show Job.files.runIn session = (.ok session.files, session) from rfl]
  dsimp only
  rw [readable]
  rfl

/-- Signing in stores the token of the answer, and nothing else changes in the configuration. -/
theorem saved_of_login {format : Format} {email password : String}
    (readable : Config.load session.files settings.configPath = .ok config)
    (h : ((login settings format email password).runIn session).1 = .ok ()) :
    ∃ token, session.answers.head?.bind Answer.token? = some token ∧
      { config with token := some token }.save session.files settings.configPath =
        .ok ((login settings format email password).runIn session).2.files := by
  unfold login at h ⊢
  split at h
  · cases h
  · next visible =>
    rw [if_neg visible]
    obtain ⟨client, -, run⟩ := Job.eq_ok_of_runIn_bind h
    rw [Job.Looks.ofConfig] at run
    rw [run] at h ⊢
    obtain ⟨token, asked, run⟩ := Job.eq_ok_of_runIn_bind h
    obtain ⟨status, body, rest, answers, success, read⟩ := Job.answer_of_askFor asked
    obtain ⟨sent, left, after⟩ :=
      Job.frame_askFor Answer.tokenDecoder (client.signIn email password) session
    rw [run, after] at h ⊢
    have stores := @runIn_readable settings { session with sent, answers := left } config
      (fun config => do
        store settings.configPath config (some token)
        Job.print format (.message (.done ("Logged in as " ++ email)))) readable
    refine ⟨token, ?_, ?_⟩
    · simp [answers, Answer.token?, success, read, Except.toOption]
    · have stored := h
      rw [stores] at stored
      exact (saved_of_store stored).trans (by rw [← stores])

theorem files_logout {format : Format}
    (readable : Config.load session.files settings.configPath = .ok config)
    (none : config.token = none) :
    ((logout settings format).runIn session).2.files = session.files := by
  unfold logout
  rw [runIn_readable readable]
  simp only [none]
  exact (Job.Works.print format _).files session

/-- Signing out takes the token out, and nothing else changes in the configuration. -/
theorem saved_of_logout {format : Format} {token : String}
    (readable : Config.load session.files settings.configPath = .ok config)
    (there : config.token = some token)
    (h : ((logout settings format).runIn session).1 = .ok ()) :
    { config with token := none }.save session.files settings.configPath =
      .ok ((logout settings format).runIn session).2.files := by
  have goes : (logout settings format).runIn session =
      (do store settings.configPath config none
          Job.print format (.message (.done "Logged out")) : Job Unit).runIn session := by
    unfold logout
    rw [runIn_readable readable]
    simp only [there]
  rw [goes] at h ⊢
  exact saved_of_store h

end Account

namespace Use

/-- The configuration file that a use signs in or out with, and whether it signs in. -/
def signs? (use : Use) : Option (String × Bool) :=
  match Invocation.parse use.environment use.words with
  | .ok ⟨globals, .login _ _⟩ =>
    (Settings.pathOf use.environment globals).toOption.map fun path => (path, true)
  | .ok ⟨globals, .logout⟩ =>
    (Settings.pathOf use.environment globals).toOption.map fun path => (path, false)
  | _ => none

def succeeds (use : Use) (files : Files) : Bool :=
  (use.run files).1.exitCode == 0

def filesAfter (use : Use) (files : Files) : Files :=
  (use.run files).2.files

/-- The token after a use that finds this one: signing in, if it succeeds, leaves the token that the
API answered with, and signing out none. -/
def tokenAfter (use : Use) (files : Files) (token : Option String) : Option String :=
  match use.succeeds files, use.signs? with
  | true, some (_, true) => use.session.answers.head?.bind Answer.token?
  | true, some (_, false) => none
  | _, _ => token

variable {use : Use} {files : Files} {path : String} {signsIn : Bool} {config : Config}

/-- The session of a use that begins with these files. -/
def startIn (use : Use) (files : Files) : Session :=
  { use.session with files }

def ended (ran : Except Error Unit × Session) : Completion × Session :=
  (.ran ran.1, ran.2)

theorem run_of_parse {globals : Globals} {command : Command} {ran : Except Error Unit × Session}
    (parsed : Invocation.parse use.environment use.words = .ok ⟨globals, command⟩)
    (job : (Invocation.job use.environment ⟨globals, command⟩).runIn (use.startIn files) = ran) :
    use.run files = ended ran := by
  unfold run Completion.ofWords
  rw [parsed]
  exact congrArg ended job

theorem run_of_signs (signs : use.signs? = some (path, signsIn))
    (loaded : Config.load files path = .ok config) :
    ∃ settings format, settings.configPath = path ∧
      ((signsIn = true ∧ ∃ email password, use.run files = ended
          ((Account.login settings format email password).runIn (use.startIn files))) ∨
        (signsIn = false ∧ use.run files = ended
          ((Account.logout settings format).runIn (use.startIn files)))) := by
  have settles {globals : Globals} (placed : Settings.pathOf use.environment globals = .ok path) :
      Settings.load use.environment files globals = .ok (Settings.merge globals config path) := by
    unfold Settings.load
    rw [placed]
    simp only [bind, Except.bind, loaded]
    rfl
  unfold signs? at signs
  split at signs
  · next globals email password parsed =>
    obtain ⟨place, placed, same⟩ := Option.map_eq_some_iff.mp signs
    cases same
    have settings := settles (eq_ok_of_toOption placed)
    refine ⟨Settings.merge globals config path, globals.format, rfl,
      .inl ⟨rfl, email, password, run_of_parse parsed ?_⟩⟩
    unfold Invocation.job
    dsimp only
    exact @Job.runIn_settings _ ⟨globals, .login email password⟩ (use.startIn files) _
      settings fun settings => Account.login settings globals.format email password
  · next globals parsed =>
    obtain ⟨place, placed, same⟩ := Option.map_eq_some_iff.mp signs
    cases same
    have settings := settles (eq_ok_of_toOption placed)
    refine ⟨Settings.merge globals config path, globals.format, rfl,
      .inr ⟨rfl, run_of_parse parsed ?_⟩⟩
    unfold Invocation.job
    dsimp only
    exact @Job.runIn_settings _ ⟨globals, .logout⟩ (use.startIn files) _ settings
      fun settings => Account.logout settings globals.format
  · cases signs

/-- What a use of a configuration file does: it leaves the configuration with the token of the use,
and all files as they are if it fails or has no token to take out. If it signs in, there was a token
in the answer. -/
structure Signed (use : Use) (files : Files) (path : String) (signsIn : Bool) (config : Config) :
    Prop where
  loads : Config.load (use.filesAfter files) path =
    .ok { config with token := use.tokenAfter files config.token }
  idle : use.succeeds files = false ∨ signsIn = false ∧ config.token = none →
    use.filesAfter files = files
  returns : use.succeeds files = true → signsIn = true →
    ∃ token, use.session.answers.head?.bind Answer.token? = some token

theorem succeeds_iff {ran : Except Error Unit × Session} (run : use.run files = ended ran) :
    use.succeeds files = true ↔ ran.1 = .ok () := by
  unfold succeeds
  rw [run]
  cases result : ran.1 with
  | error e => simp [ended, result, Completion.exitCode, e.exitCode_ne_zero]
  | ok _ => simp [ended, result, Completion.exitCode]

theorem Signed.of_fails (loaded : Config.load files path = .ok config)
    (fails : use.succeeds files = false) (kept : use.filesAfter files = files) :
    Signed use files path signsIn config := by
  refine ⟨?_, fun _ => kept, fun done _ => ?_⟩
  · have token : use.tokenAfter files config.token = config.token := by simp [tokenAfter, fails]
    rw [token, kept, loaded]
  · rw [fails] at done
    cases done

/-- What a use stored is loaded again. -/
theorem Signed.of_saved {token : Option String} (loaded : Config.load files path = .ok config)
    (done : use.succeeds files = true) (after : use.tokenAfter files config.token = token)
    (saved : { config with token }.save files path = .ok (use.filesAfter files))
    (there : signsIn = false → config.token ≠ none)
    (returns : signsIn = true →
      ∃ token, use.session.answers.head?.bind Answer.token? = some token) :
    Signed use files path signsIn config := by
  refine ⟨?_, fun nothing => ?_, fun _ => returns⟩
  · rw [after]
    exact Config.load_save (Config.Fits.with_token (Config.fits_of_load loaded) token) saved
  · rcases nothing with fails | ⟨out, absent⟩
    · rw [done] at fails
      cases fails
    · exact absurd absent (there out)

variable {settings : Settings} {format : Format}

theorem Signed.of_login {email password : String}
    (signs : use.signs? = some (settings.configPath, true)) (free : use.session.out.room = none)
    (loaded : Config.load files settings.configPath = .ok config)
    (run : use.run files =
      ended ((Account.login settings format email password).runIn (use.startIn files))) :
    Signed use files settings.configPath true config := by
  have left : use.filesAfter files =
      ((Account.login settings format email password).runIn (use.startIn files)).2.files :=
    congrArg (·.2.files) run
  have succeeds := succeeds_iff run
  cases result : ((Account.login settings format email password).runIn (use.startIn files)).1 with
  | error e =>
    have fails : use.succeeds files = false := by
      rw [← Bool.not_eq_true, succeeds, result]
      nofun
    have job := @Account.traceless_login settings (use.startIn files) format email password config
      loaded
    exact .of_fails loaded fails (left.trans (job.files e result (.inl free)))
  | ok _ =>
    have done := succeeds.mpr result
    obtain ⟨token, returned, saved⟩ := @Account.saved_of_login settings (use.startIn files) config
      format email password loaded result
    have after : use.tokenAfter files config.token = some token := by
      simp only [tokenAfter, done, signs]
      exact returned
    exact .of_saved loaded done after (saved.trans (congrArg _ left.symm)) nofun
      fun _ => ⟨token, returned⟩

theorem Signed.of_logout (signs : use.signs? = some (settings.configPath, false))
    (free : use.session.out.room = none)
    (loaded : Config.load files settings.configPath = .ok config)
    (run : use.run files = ended ((Account.logout settings format).runIn (use.startIn files))) :
    Signed use files settings.configPath false config := by
  have left : use.filesAfter files =
      ((Account.logout settings format).runIn (use.startIn files)).2.files :=
    congrArg (·.2.files) run
  have succeeds := succeeds_iff run
  cases there : config.token with
  | none =>
    -- Whether this succeeds or not, there is no token to take out, and none is what is left.
    have kept : use.filesAfter files = files :=
      left.trans (@Account.files_logout settings (use.startIn files) config format loaded there)
    refine ⟨?_, fun _ => kept, nofun⟩
    have token : use.tokenAfter files config.token = config.token := by
      unfold tokenAfter
      rw [signs, there]
      cases use.succeeds files <;> rfl
    rw [token, kept, loaded]
  | some token =>
    cases result : ((Account.logout settings format).runIn (use.startIn files)).1 with
    | error e =>
      have fails : use.succeeds files = false := by
        rw [← Bool.not_eq_true, succeeds, result]
        nofun
      have job := @Account.traceless_logout settings (use.startIn files) format
      exact .of_fails loaded fails (left.trans (job.files e result (.inl free)))
    | ok _ =>
      have done := succeeds.mpr result
      have saved := @Account.saved_of_logout settings (use.startIn files) config format token loaded
        there result
      have after : use.tokenAfter files config.token = none := by simp only [tokenAfter, done, signs]
      refine .of_saved loaded done after (saved.trans (congrArg _ left.symm)) (fun _ => ?_) nofun
      rw [there]
      exact Option.some_ne_none token

theorem signed_of_signs (signs : use.signs? = some (path, signsIn))
    (free : use.session.out.room = none) (loaded : Config.load files path = .ok config) :
    Signed use files path signsIn config := by
  obtain ⟨settings, format, rfl, ⟨rfl, email, password, run⟩ | ⟨rfl, run⟩⟩ :=
    run_of_signs signs loaded
  · exact .of_login signs free loaded run
  · exact .of_logout signs free loaded run

/-! ## Uses one after the other -/

def filesAfterAll : List Use → Files → Files
  | [], files => files
  | use :: uses, files => filesAfterAll uses (use.filesAfter files)

/-- The token after uses that find this one: that of the last use that succeeded, or else this. -/
def tokenAfterAll : List Use → Files → Option String → Option String
  | [], _, token => token
  | use :: uses, files, token =>
    tokenAfterAll uses (use.filesAfter files) (use.tokenAfter files token)

theorem filesAfterAll_append (front back : List Use) (files : Files) :
    filesAfterAll (front ++ back) files = filesAfterAll back (filesAfterAll front files) := by
  induction front generalizing files with
  | nil => rfl
  | cons use front ih => exact ih _

theorem tokenAfterAll_append (front back : List Use) (files : Files) (token : Option String) :
    tokenAfterAll (front ++ back) files token =
      tokenAfterAll back (filesAfterAll front files) (tokenAfterAll front files token) := by
  induction front generalizing files token with
  | nil => rfl
  | cons use front ih => exact ih _ _

/-- Whether a use signs in or out with a configuration file and can print what it has to say. -/
def SignsWith (path : String) (use : Use) : Prop :=
  (∃ signsIn, use.signs? = some (path, signsIn)) ∧ use.session.out.room = none

theorem load_filesAfterAll {uses : List Use} (loaded : Config.load files path = .ok config)
    (signs : ∀ use ∈ uses, use.SignsWith path) :
    Config.load (filesAfterAll uses files) path =
      .ok { config with token := tokenAfterAll uses files config.token } := by
  -- What carries the induction is that the file can be read: each use finds what the one before left.
  induction uses generalizing files config with
  | nil => exact loaded
  | cons use uses ih =>
    obtain ⟨⟨⟨signsIn, here⟩, free⟩, later⟩ := List.forall_mem_cons.mp signs
    exact ih (signed_of_signs here free loaded).loads later

/-- Signing in and out touches only the token of a configuration that can be read, or of one that is
not there yet. After every use the file is loaded as the same configuration with the token of the
last use that succeeded: the one that the API answered with to signing in, none to signing out, and
the first one if there was no such use. A use that fails to sign in or out, and signing out without
a token, leaves all files as they are. -/
theorem touches_token {uses : List Use} (loaded : Config.load files path = .ok config)
    (signs : ∀ use ∈ uses, use.SignsWith path) :
    (∀ front, front <+: uses → Config.load (filesAfterAll front files) path =
      .ok { config with token := tokenAfterAll front files config.token }) ∧
    ∀ front use back, uses = front ++ use :: back →
      (use.succeeds (filesAfterAll front files) = true → use.signs? = some (path, true) →
        ∃ token, use.session.answers.head?.bind Answer.token? = some token ∧
          tokenAfterAll (front ++ [use]) files config.token = some token) ∧
      (use.succeeds (filesAfterAll front files) = false ∨
          use.signs? = some (path, false) ∧ tokenAfterAll front files config.token = none →
        filesAfterAll (front ++ [use]) files = filesAfterAll front files) := by
  have prefixes (front : List Use) (part : ∀ use ∈ front, use ∈ uses) :
      Config.load (filesAfterAll front files) path =
        .ok { config with token := tokenAfterAll front files config.token } :=
    load_filesAfterAll loaded fun use member => signs use (part use member)
  refine ⟨fun front part => prefixes front fun use member => part.subset member, ?_⟩
  rintro front use back rfl
  obtain ⟨⟨signsIn, here⟩, free⟩ := signs use (by simp)
  have before := prefixes front fun use member => List.mem_append_left _ member
  obtain ⟨-, idle, returns⟩ := signed_of_signs here free before
  rw [filesAfterAll_append, tokenAfterAll_append, here]
  refine ⟨fun done same => ?_, fun nothing => ?_⟩
  · cases same
    obtain ⟨token, returned⟩ := returns done rfl
    exact ⟨token, returned, by simp [tokenAfterAll, tokenAfter, done, here, returned]⟩
  · exact idle (nothing.imp_right fun ⟨same, absent⟩ =>
      ⟨(Prod.mk.inj (Option.some.inj same)).2, absent⟩)

/-- A token with every kind of quote, a line end, a backslash and a control character is stored
beside a setting, survives signing in once more without an answer, and is taken out again. -/
theorem touches_token_quotes :
    let token := "\"'\n\t\\" ++ String.singleton (Char.ofNat 1) ++ "é'''\"\"\""
    let body := (Json.object [("jwtToken", .string token)]).compact
    let files : Files := ⟨[(Path.ofString "c", .file (Text.utf8 "service_id = 's\"1'\n") false)]⟩
    let config : Config := ⟨none, none, some "s\"1", none, none⟩
    let typed (words : List String) (answers : List Answer) : Use :=
      ⟨⟨[], none⟩, ["--config", "c"] ++ words, Session.start answers .empty .unbounded⟩
    let signIn := typed ["login", "--email", "a@b", "--password", "x"]
    let uses := [signIn [.answered 200 body], signIn [.dropped], typed ["logout"] []]
    Config.load files "c" = .ok config ∧ (∀ use ∈ uses, use.SignsWith "c") ∧
      Config.load (filesAfterAll (uses.take 2) files) "c" = .ok { config with token := some token } ∧
      filesAfterAll (uses.take 2) files = filesAfterAll (uses.take 1) files ∧
      Config.load (filesAfterAll uses files) "c" = .ok config := by
  intro token body files config typed signIn uses
  have loaded : Config.load files "c" = .ok config := by
    apply eq_ok_of_toOption
    decide +kernel
  have signs : ∀ use ∈ uses, use.SignsWith "c" := by
    simp only [uses, List.forall_mem_cons]
    refine ⟨⟨⟨true, ?_⟩, rfl⟩, ⟨⟨true, ?_⟩, rfl⟩, ⟨⟨false, ?_⟩, rfl⟩, List.forall_mem_nil _⟩
    all_goals decide +kernel
  have stored : tokenAfterAll (uses.take 2) files config.token = some token := by decide +kernel
  have fails : (signIn [.dropped]).succeeds (filesAfterAll (uses.take 1) files) = false := by
    decide +kernel
  have gone : tokenAfterAll uses files config.token = none := by decide +kernel
  obtain ⟨loads, steps⟩ := touches_token loaded signs
  refine ⟨loaded, signs, ?_, (steps (uses.take 1) _ [typed ["logout"] []] rfl).2 (.inl fails), ?_⟩
  · rw [loads _ (List.take_prefix 2 uses), stored]
  · rw [loads _ List.prefix_rfl, gone]

end Use

end FleetControl
