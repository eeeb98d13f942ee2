import FleetControl.Settings.Settings
import FleetControl.Proofs.Files.Saving
import FleetControl.Proofs.Toml.Lines
import FleetControl.Proofs.Json.Fields

/-!
# The configuration file is read as it was written

What is proved:

1. `Config.parse_render`: a configuration is read back from its written form, whatever its texts are,
   if its interval fits 64 bits (`Config.Fits`).
2. `Config.fits_of_load`: that is so for every configuration that was loaded.
3. `Config.load_save`: hence a configuration that was saved is loaded again. Making the file readable
   by its owner only leaves its text (`Files.readText_protect`).
-/

namespace FleetControl

namespace Config

open Toml

def line? {α : Type} (key : String) (scalar : α → Scalar) (value : Option α) :
    List (String × Scalar) :=
  (value.map fun a => (key, scalar a)).toList

def lines (config : Config) : List (String × Scalar) :=
  line? "api_url" .text config.apiUrl ++ line? "token" .text config.token ++
    line? "service_id" .text config.serviceId ++ line? "environment_id" .text config.environmentId ++
    line? "poll_interval_secs" .number config.pollSeconds

theorem toList_render (config : Config) : config.render.toList = linesText config.lines := by
  obtain ⟨apiUrl, token, serviceId, environmentId, pollSeconds⟩ := config
  have text (key : String) (value : Option String) :
      (textLine key value).toList = linesText (line? key .text value) := by
    cases value <;> simp [textLine, line?, linesText, Scalar.text]
  have number (value : Option Nat) :
      (numberLine "poll_interval_secs" value).toList =
        linesText (line? "poll_interval_secs" .number value) := by
    cases value <;> simp [numberLine, line?, linesText, Scalar.number]
  simp [render, lines, text, number, linesText]

/-- Whether the interval of a configuration fits 64 bits. -/
def Fits (config : Config) : Prop :=
  ∀ n ∈ config.pollSeconds, n < UInt64.size

theorem mem_line? {α : Type} {key : String} {scalar : α → Scalar} {value : Option α}
    {line : String × Scalar} (member : line ∈ line? key scalar value) :
    line.1 = key ∧ ∃ a ∈ value, line.2 = scalar a := by
  cases value with
  | none => cases member
  | some a =>
    cases List.mem_singleton.mp member
    exact ⟨rfl, a, rfl, rfl⟩

def keys : List String :=
  ["api_url", "token", "service_id", "environment_id", "poll_interval_secs"]

theorem isBareKey_of_mem : ∀ key ∈ keys, IsBareKey key := by
  have bare : ∀ key ∈ keys, key.toList ≠ [] ∧ key.toList.all isKeyChar = true := by decide
  exact fun key member => ⟨(bare key member).1, List.all_eq_true.mp (bare key member).2⟩

theorem good_lines {config : Config} (fits : config.Fits) :
    ∀ line ∈ config.lines, IsBareKey line.1 ∧ line.2.Rereads := by
  have text {key : String} {value : Option String} (known : key ∈ keys) :
      ∀ line ∈ line? key .text value, IsBareKey line.1 ∧ line.2.Rereads := by
    intro line member
    obtain ⟨same, s, -, written⟩ := mem_line? member
    rw [same, written]
    exact ⟨isBareKey_of_mem key known, Scalar.rereads_text s⟩
  intro line member
  simp only [lines, List.mem_append] at member
  rcases member with (((member | member) | member) | member) | member
  · exact text (by decide) line member
  · exact text (by decide) line member
  · exact text (by decide) line member
  · exact text (by decide) line member
  · obtain ⟨same, n, there, written⟩ := mem_line? member
    rw [same, written]
    exact ⟨isBareKey_of_mem _ (by decide), Scalar.rereads_number (fits n there)⟩

theorem nodup_lines (config : Config) : (config.lines.map (·.1)).Nodup := by
  have one {α : Type} (key : String) (scalar : α → Scalar) (value : Option α) :
      ((line? key scalar value).map (·.1)).Sublist [key] := by
    cases value <;> simp [line?]
  have all : (config.lines.map (·.1)).Sublist keys := by
    simp only [lines, List.map_append]
    exact ((((one _ _ _).append (one _ _ _)).append (one _ _ _)).append (one _ _ _)).append
      (one _ _ _)
  exact all.nodup (by decide)

/-- What the table of lines has under a key: what the first line has, or else the others. -/
theorem get?_line? {α : Type} (key other : String) (scalar : α → Scalar) (value : Option α)
    (rest : Toml.Fields) :
    Toml.Fields.get? ((line? key scalar value).map (fun line => (line.1, line.2.value)) ++ rest)
        other =
      ((if key = other then value.map fun a => (scalar a).value else none).or (rest.get? other)) := by
  cases value with
  | none => simp [line?, Toml.Fields.get?]
  | some a =>
    by_cases same : key = other
    · simp [line?, Toml.Fields.get?, same]
    · have apart : (other == key) = false := beq_eq_false_iff_ne.mpr (Ne.symm same)
      simp [line?, Toml.Fields.get?, same, List.lookup_cons, apart]

theorem text?_of_get? {fields : Toml.Fields} {key : String} {value : Option String}
    (there : fields.get? key = value.map .string) : text? fields key = .ok value := by
  cases value <;> simp [text?, there]

theorem number?_of_get? {fields : Toml.Fields} {key : String} {value : Option Nat}
    (small : ∀ n ∈ value, n < UInt64.size) (there : fields.get? key = value.map fun n => .integer n) :
    number? fields key = .ok value := by
  cases value with
  | none => simp [number?, there]
  | some n =>
    have small : (n : Int) < UInt64.size := Int.ofNat_lt.mpr (small n rfl)
    simp only [number?, there, Option.map_some, small, Int.natCast_nonneg, decide_true,
      Bool.and_self, if_true, Int.toNat_natCast]

/-- A configuration is read back from its written form. -/
theorem parse_render {config : Config} (fits : config.Fits) : parse config.render = .ok config := by
  have read := read?_linesText (good_lines fits) (nodup_lines config) (toList_render config)
  obtain ⟨table, same⟩ : ∃ table : Toml.Fields,
      table = config.lines.map fun line => (line.1, line.2.value) := ⟨_, rfl⟩
  have there (key : String) : table.get? key =
      Toml.Fields.get? (config.lines.map (fun line => (line.1, line.2.value)) ++ []) key := by
    rw [same, List.append_nil]
  have nothing (key : String) : Toml.Fields.get? [] key = none := rfl
  simp only [lines, List.map_append, List.append_assoc, get?_line?, nothing, Option.or_none] at there
  have apiUrl : text? table "api_url" = .ok config.apiUrl :=
    text?_of_get? ((there _).trans (by simp [Scalar.text]))
  have token : text? table "token" = .ok config.token :=
    text?_of_get? ((there _).trans (by simp [Scalar.text]))
  have serviceId : text? table "service_id" = .ok config.serviceId :=
    text?_of_get? ((there _).trans (by simp [Scalar.text]))
  have environmentId : text? table "environment_id" = .ok config.environmentId :=
    text?_of_get? ((there _).trans (by simp [Scalar.text]))
  have pollSeconds : number? table "poll_interval_secs" = .ok config.pollSeconds :=
    number?_of_get? fits ((there _).trans (by simp [Scalar.number]))
  simp only [parse, read, ← same, ofFields, apiUrl, token, serviceId, environmentId, pollSeconds]
  rfl

theorem small_of_number? {fields : Toml.Fields} {key : String} {value : Option Nat}
    (h : number? fields key = .ok value) : ∀ n ∈ value, n < UInt64.size := by
  unfold number? at h
  split at h
  · cases h
    exact nofun
  · split at h
    · next range =>
      cases h
      simp only [Bool.and_eq_true, decide_eq_true_eq] at range
      rintro n ⟨⟩
      omega
    · cases h
  · cases h

theorem fits_of_parse {content : String} {config : Config} (h : parse content = .ok config) :
    config.Fits := by
  unfold parse at h
  split at h
  · cases h
  · next fields _ =>
    unfold ofFields at h
    obtain ⟨apiUrl, -, h⟩ := eq_ok_of_bind h
    obtain ⟨token, -, h⟩ := eq_ok_of_bind h
    obtain ⟨serviceId, -, h⟩ := eq_ok_of_bind h
    obtain ⟨environmentId, -, h⟩ := eq_ok_of_bind h
    obtain ⟨pollSeconds, read, h⟩ := eq_ok_of_bind h
    cases h
    exact small_of_number? read

end Config

namespace Files

variable {files : Files} {path : Path}

theorem look_eq_file {bytes : List UInt8} {ownerOnly : Bool}
    (h : files.look path = .file bytes ownerOnly) :
    path.ending = .name ∧ files.lookNamed path = .file bytes ownerOnly := by
  unfold look at h
  split at h
  · cases h
  · cases h
  · next slash dot =>
    refine ⟨?_, h⟩
    cases ending : path.ending with
    | name => rfl
    | slash => exact (slash _ _ ending h).elim
    | dot => exact (dot _ _ ending h).elim

theorem readText_protect (files : Files) (path : Path) :
    (files.protect path).readText path = files.readText path := by
  unfold protect
  split
  · next bytes ownerOnly there =>
    obtain ⟨name, found⟩ := look_eq_file there
    have free : files.lookNamed path ≠ .blocked := by simp [found]
    have put := @lookNamed_put files path bytes true name free
    have here : (files.put path bytes true).look path = .file bytes true := by
      simp [look, name, put]
    unfold readText
    rw [here, there]
  · rfl

end Files

namespace Config

theorem fits_of_load {files : Files} {path : String} {config : Config}
    (h : load files path = .ok config) : config.Fits := by
  unfold load at h
  split at h
  · cases h
  · cases h
    exact nofun
  · exact fits_of_parse h

theorem Fits.with_token {config : Config} (fits : config.Fits) (token : Option String) :
    { config with token }.Fits :=
  fits

/-- A configuration that was saved is loaded again. -/
theorem load_save {files saved : Files} {path : String} {config : Config} (fits : config.Fits)
    (h : config.save files path = .ok saved) : load saved path = .ok config := by
  obtain ⟨written, text, same⟩ := eq_ok_of_bind h
  cases same
  simp only [load, Files.readText_protect, Files.readText_save text]
  exact parse_render fits

end Config

end FleetControl
