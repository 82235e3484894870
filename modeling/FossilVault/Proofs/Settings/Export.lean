import FossilVault.Proofs.Settings.Precedence
import FossilVault.Proofs.Sorting
/-
**Settings exported.** The settings can be told as environment variables, with the secrets masked. Whoever
loads settings from just these variables has the same settings again, but for the keys: each variable is heard
by one field, numbers are read back from their digits and levels from their names, and an empty text counts
as none where there was none.

* `Field.variable`, `Settings.exported` — the variable of a field, and the settings that all of them tell of;
* `Settings.find_exported` — every field hears its own variable;
* `Settings.Sane`, `Settings.sane_of_load` — what validation makes sure of;
* `Settings.load_environment` — the exported variables load;
* `Settings.environment_reproduces` — what they load as.
-/

namespace FossilVault

/-- The variable that a field is exported as. -/
def Field.variable : Field → String
  | .region => "AWS_DEFAULT_REGION"
  | .accessKey => "AWS_ACCESS_KEY_ID"
  | .secretKey => "AWS_SECRET_ACCESS_KEY"
  | .endpoint => "AWS_ENDPOINT_URL"
  | .bucket => "S3_BUCKET_NAME"
  | .threads => "STORAGE_THREADS"
  | .downloadLimit => "DOWNLOAD_RATE_LIMIT"
  | .uploadLimit => "UPLOAD_RATE_LIMIT"
  | .logLevel => "LOG_LEVEL"

namespace Sources

section Heard

variable {β : Type} {pairs : List (String × β)} {pair : String × β} {name : String}

theorem first_of_mem (distinct : (pairs.map fun pair => Text.lower pair.1).Nodup) (among : pair ∈ pairs)
    (named : Text.lower pair.1 = Text.lower name) : first name pairs = some pair.2 := by
  rw [first, ← named, Sorting.find?_of_nodup distinct among]
  rfl

/-- Where no two names differ in their letter case alone, each name is heard wherever it stands. -/
theorem last_of_mem (distinct : (pairs.map fun pair => Text.lower pair.1).Nodup) (among : pair ∈ pairs)
    (named : Text.lower pair.1 = Text.lower name) : last name pairs = some pair.2 := by
  refine first_of_mem ?_ (List.mem_reverse.mpr among) named
  rw [List.map_reverse]
  exact (List.reverse_perm _).nodup_iff.mpr distinct

end Heard

end Sources

namespace Settings

/-- The text that a field is exported as. -/
def text (settings : Settings) : Field → String
  | .region => settings.region
  | .accessKey => masked settings.accessKey
  | .secretKey => masked settings.secretKey
  | .endpoint => settings.endpoint.getD ""
  | .bucket => settings.bucket
  | .threads => toString settings.threads
  | .downloadLimit => toString settings.downloadLimit
  | .uploadLimit => toString settings.uploadLimit
  | .logLevel => settings.logLevel.name

/-- Each field is exported as one variable. -/
theorem mem_environment (settings : Settings) (field : Field) :
    (field.variable, settings.text field) ∈ settings.environment := by
  cases field <;> simp [environment, text, Field.variable]

/-- No two variables differ in their letter case alone. -/
theorem distinct_environment (settings : Settings) :
    (settings.environment.map fun pair => Text.lower pair.1).Nodup := by
  have distinct : (environment {}).map (fun pair => Text.lower pair.1) |>.Nodup := by decide +kernel
  exact distinct

/-- **Every field hears its own variable**, by its second name if it has one. -/
theorem find_exported (settings : Settings) (field : Field) :
    (Sources.read [] settings.environment none).find field =
      some ⟨.text (settings.text field), field.name⟩ := by
  have heard {name : String} (named : Text.lower field.variable = Text.lower name) :
      (Sources.read [] settings.environment none).textFor name = some (settings.text field) := by
    have last : Sources.last name settings.environment = _ :=
      Sources.last_of_mem settings.distinct_environment (settings.mem_environment field) named
    simp [Sources.textFor, Sources.read, last]
  have hears : (Sources.read [] settings.environment none).fromVariables field =
      some (settings.text field) := by
    unfold Sources.fromVariables
    cases second : field.secondName with
    | some name =>
      have named : field.variable = name := by
        cases field <;> cases second <;> rfl
      rw [Option.bind_some, heard (congrArg Text.lower named)]
      rfl
    | none =>
      have named : Text.lower field.variable = Text.lower field.name := by
        cases field with
        | region | accessKey | secretKey | endpoint => cases second
        | bucket | threads | downloadLimit | uploadLimit | logLevel => decide +kernel
      rw [Option.bind_none, heard named]
      rfl
  rw [Sources.find_read, hears]
  rfl

/-! ### What validation makes sure of -/

/-- There is a worker, and no limit is negative. -/
structure Sane (settings : Settings) : Prop where
  threads : 1 ≤ settings.threads
  downloadLimit : 0 ≤ settings.downloadLimit
  uploadLimit : 0 ≤ settings.uploadLimit

/-- What holds of the default and of all that is read holds of a loaded field. -/
theorem loadField_holds {β : Type} {holds : β → Prop} {field : Field} {read : Value → Except Refusal β}
    {default : β} (usual : holds default) (reads : ∀ value result, read value = .ok result → holds result)
    (sources : Sources) : holds (loadField field read default sources).1 := by
  unfold loadField
  split
  · exact usual
  · split
    · rename_i read
      exact reads _ _ read
    · exact usual

/-- A number that must not be below a bound is read exactly if it is an integer and is not. -/
theorem bounded_eq_ok_iff {bound number : Int} {refusal : Int → Refusal} {value : Value} :
    (do
      let read ← value.asInteger
      if read < bound then Except.error (refusal read) else .ok read) = .ok number ↔
      value.asInteger = .ok number ∧ bound ≤ number := by
  cases value.asInteger with
  | error refused =>
    constructor
    · exact nofun
    · rintro ⟨⟨⟩, _⟩
  | ok read =>
    change (if read < bound then Except.error (refusal read) else .ok read) = _ ↔ _
    rw [Except.ok.injEq]
    split
    · constructor
      · exact nofun
      · rintro ⟨rfl, within⟩
        omega
    · rw [Except.ok.injEq]
      constructor
      · rintro rfl
        exact ⟨rfl, by omega⟩
      · exact And.left

theorem asThreads_eq_ok_iff {value : Value} {threads : Int} :
    value.asThreads = .ok threads ↔ value.asInteger = .ok threads ∧ 1 ≤ threads :=
  bounded_eq_ok_iff

theorem asLimit_eq_ok_iff {value : Value} {limit : Int} :
    value.asLimit = .ok limit ↔ value.asInteger = .ok limit ∧ 0 ≤ limit :=
  bounded_eq_ok_iff

/-- **Settings that load are sane.** -/
theorem sane_of_load {sources : Sources} {settings : Settings} (loaded : load sources = .ok settings) :
    settings.Sane := by
  unfold load at loaded
  simp only at loaded
  split at loaded
  · cases loaded
    exact ⟨loadField_holds (by decide) (fun _ _ read => (asThreads_eq_ok_iff.mp read).2) sources,
      loadField_holds (by decide) (fun _ _ read => (asLimit_eq_ok_iff.mp read).2) sources,
      loadField_holds (by decide) (fun _ _ read => (asLimit_eq_ok_iff.mp read).2) sources⟩
  · cases loaded

/-! ### Loading what was exported -/

/-- The settings that the exported variables tell of. -/
def exported (settings : Settings) : Settings :=
  { settings with
    accessKey := some (masked settings.accessKey)
    secretKey := some (masked settings.secretKey)
    endpoint := some (settings.endpoint.getD "") }

/-- A number that can be written is read back. -/
theorem asInteger_toString {number : Int} (natural : 0 ≤ number)
    (few : (Nat.toDigits 10 number.natAbs).length ≤ Number.writtenLimit) :
    (Value.text (toString number)).asInteger = .ok number := by
  obtain ⟨number, rfl⟩ := Int.eq_ofNat_of_zero_le natural
  rw [Int.natAbs_natCast] at few
  rw [Value.asInteger, show toString (number : Int) = toString number from rfl,
    Number.parseInteger_toString few]

theorem loadField_environment {β : Type} (settings : Settings) {field : Field}
    {read : Value → Except Refusal β} {value : β} (reads : read (.text (settings.text field)) = .ok value)
    (default : β) :
    loadField field read default (.read [] settings.environment none) = (value, []) := by
  rw [loadField, find_exported]
  simp only [reads]

/-- **The exported variables load.** -/
theorem load_environment {settings : Settings} (sane : settings.Sane)
    (few : ∀ number ∈ [settings.threads, settings.downloadLimit, settings.uploadLimit],
      (Nat.toDigits 10 number.natAbs).length ≤ Number.writtenLimit) :
    load (.read [] settings.environment none) = .ok settings.exported := by
  simp only [List.forall_mem_cons, List.not_mem_nil, false_implies, implies_true, and_true] at few
  obtain ⟨fewThreads, fewDown, fewUp⟩ := few
  have threads : (Value.text (settings.text .threads)).asThreads = .ok settings.threads :=
    asThreads_eq_ok_iff.mpr
      ⟨asInteger_toString (Int.le_trans (by decide) sane.threads) fewThreads, sane.threads⟩
  have down : (Value.text (settings.text .downloadLimit)).asLimit = .ok settings.downloadLimit :=
    asLimit_eq_ok_iff.mpr ⟨asInteger_toString sane.downloadLimit fewDown, sane.downloadLimit⟩
  have up : (Value.text (settings.text .uploadLimit)).asLimit = .ok settings.uploadLimit :=
    asLimit_eq_ok_iff.mpr ⟨asInteger_toString sane.uploadLimit fewUp, sane.uploadLimit⟩
  have level : (Value.text (settings.text .logLevel)).asLogLevel = .ok settings.logLevel := by
    rw [Value.asLogLevel, text, Value.display_text, LogLevel.ofText_name]
  have region : (Value.text (settings.text .region)).asText = .ok settings.region := rfl
  have bucket : (Value.text (settings.text .bucket)).asText = .ok settings.bucket := rfl
  have optional (field : Field) :
      (Value.text (settings.text field)).asOptionalText = .ok (some (settings.text field)) := rfl
  simp only [load, loadField_environment settings region, loadField_environment settings bucket,
    loadField_environment settings threads, loadField_environment settings down,
    loadField_environment settings up, loadField_environment settings level,
    loadField_environment settings (optional _)]
  rfl

theorem filled_masked (secret : Option String) :
    filled (some (masked secret)) = (filled secret).map fun _ => "****" := by
  unfold masked
  cases filled secret <;> rfl

theorem filled_getD (words : Option String) : filled (some (words.getD "")) = filled words := by
  cases words <;> rfl

theorem masked_masked (secret : Option String) : masked (some (masked secret)) = masked secret := by
  rw [masked, filled_masked, masked, Option.isSome_map]

/-- **The exported environment reproduces the settings**, whatever sources they came from, as long as their
numbers have no more digits than can be read. Settings load from it and have the same bucket, region, workers,
limits and level. What a client is made with is the same but for the keys, each of which is masked if it is
there, and the same environment is exported again. -/
theorem environment_reproduces {sources : Sources} {settings : Settings}
    (loaded : load sources = .ok settings)
    (few : ∀ number ∈ [settings.threads, settings.downloadLimit, settings.uploadLimit],
      (Nat.toDigits 10 number.natAbs).length ≤ 4300) :
    ∃ again, load (.read [] settings.environment none) = .ok again ∧
      again.bucket = settings.bucket ∧ again.region = settings.region ∧
      again.threads = settings.threads ∧ again.downloadLimit = settings.downloadLimit ∧
      again.uploadLimit = settings.uploadLimit ∧ again.logLevel = settings.logLevel ∧
      again.clientOptions = { settings.clientOptions with
        accessKey := settings.clientOptions.accessKey.map fun _ => "****"
        secretKey := settings.clientOptions.secretKey.map fun _ => "****" } ∧
      again.environment = settings.environment := by
  refine ⟨settings.exported, load_environment (sane_of_load loaded) few, rfl, rfl, rfl, rfl, rfl, rfl, ?_, ?_⟩
  · simp only [clientOptions, exported, filled_masked, filled_getD]
  · simp only [environment, exported, masked_masked, Option.getD_some]

/-- Workers given by hand, a key and a level from the environment, a limit and no address from the file. -/
theorem environment_reproduces_of_all_sources :
    let sources : Sources := .read [("storage_threads", .text " 0_16.0 ")]
      [("aws_access_key_id", "AKIA"), ("LOG_LEVEL", "warn")]
      (some "DOWNLOAD_RATE_LIMIT=512\nAWS_ENDPOINT_URL=")
    let settings : Settings := {
      accessKey := some "AKIA", endpoint := some ""
      threads := 16, downloadLimit := 512, logLevel := .warn }
    load sources = .ok settings ∧
      (∀ number ∈ [settings.threads, settings.downloadLimit, settings.uploadLimit],
        (Nat.toDigits 10 number.natAbs).length ≤ 4300) ∧
      ∃ again, load (.read [] settings.environment none) = .ok again ∧ again.threads = 16 ∧
        again.clientOptions = { settings.clientOptions with accessKey := some "****" } := by
  intro sources settings
  have loaded : load sources = .ok settings := load_of_toOption (by decide +kernel)
  have few : ∀ number ∈ [settings.threads, settings.downloadLimit, settings.uploadLimit],
      (Nat.toDigits 10 number.natAbs).length ≤ 4300 := by decide
  obtain ⟨again, loads, _, _, threads, _, _, _, options, _⟩ := environment_reproduces loaded few
  exact ⟨loaded, few, again, loads, threads, options⟩

end Settings

end FossilVault
