import FossilVault.Settings.Load
/-
**Which source counts.** The environment is meant to count before the environment file, and the file
before the default. For every field but one this is so, because the second name of a field, if it has one,
is its name in another letter case. The region alone has two names, and there the second name in the file
is heard before the name in the environment.

* `Sources.Overrules` — the file overrules the environment on a field;
* `Sources.find_of_overrules`, `Sources.find_of_not_overrules` — what counts then, and what otherwise;
* `Sources.environment_counts_iff` — when the environment counts, and when it does whatever the file says;
* `Settings.file_overrules_environment` — an environment and a file whose settings are not those of the
  environment.
-/

namespace FossilVault

namespace Sources

/-- The text that the environment has for a field, under either of its names. -/
def inEnvironment (field : Field) (sources : Sources) : Option String :=
  field.secondName.bind (last · sources.environment) <|> last field.name sources.environment

/-- The text that the file has for a field, under either of its names. -/
def inFile (field : Field) (sources : Sources) : Option String :=
  field.secondName.bind (fun second => (last second sources.file).join) <|>
    (last field.name sources.file).join

/-- The file overrules the environment on a field by this text: the environment has the field under its
name alone, and the file has it under its second name. -/
def Overrules (field : Field) (text : String) (sources : Sources) : Prop :=
  ∃ second, field.secondName = some second ∧ last second sources.environment = none ∧
    (last field.name sources.environment).isSome ∧ (last second sources.file).join = some text

/-! ### The names of a field -/

theorem last_congr {β : Type} {name other : String} (same : Text.lower name = Text.lower other)
    (pairs : List (String × β)) : last name pairs = last other pairs := by
  unfold last first
  rw [same]

/-- **The second name of a field is its name in another letter case**, unless the field is the region. -/
theorem last_secondName {β : Type} {field : Field} (other : field ≠ .region) {second : String}
    (named : field.secondName = some second) (pairs : List (String × β)) :
    last second pairs = last field.name pairs := by
  refine last_congr ?_ pairs
  cases field with
  | region => exact absurd rfl other
  | accessKey | secretKey | endpoint =>
    cases named
    decide +kernel
  | bucket | threads | downloadLimit | uploadLimit | logLevel => cases named

/-- Only the region can be overruled. -/
theorem Overrules.region {field : Field} {text : String} {sources : Sources}
    (overrules : sources.Overrules field text) : field = .region := by
  obtain ⟨second, named, missing, present, _⟩ := overrules
  refine Decidable.by_contra fun other => ?_
  rw [← last_secondName other named, missing] at present
  cases present

/-- A field is overruled by one text at most. -/
theorem Overrules.unique {field : Field} {text text' : String} {sources : Sources}
    (overrules : sources.Overrules field text) (overrules' : sources.Overrules field text') :
    text = text' := by
  obtain ⟨second, named, _, _, there⟩ := overrules
  obtain ⟨second', named', _, _, there'⟩ := overrules'
  rw [named] at named'
  cases named'
  exact Option.some.inj (there.symm.trans there')

/-! ### What counts -/

/-- Without values given by hand a field has what the environment and the file give for it. -/
theorem find_read (field : Field) (environment : List (String × String)) (text : Option String) :
    (read [] environment text).find field =
      ((read [] environment text).fromVariables field).map fun value => ⟨.text value, field.name⟩ := by
  have nothing : (read [] environment text).byHand field = none := by
    unfold byHand
    cases field.secondName <;> rfl
  rw [find, nothing]
  rfl

variable {field : Field} {environment : List (String × String)} {text : Option String}

/-- **What overrules the environment counts.** -/
theorem find_of_overrules {other : String}
    (overrules : (read [] environment text).Overrules field other) :
    (read [] environment text).find field = some ⟨.text other, field.name⟩ := by
  obtain ⟨second, named, missing, _, there⟩ := overrules
  rw [find_read, fromVariables, named, Option.bind_some, textFor, missing, there]
  rfl

/-- **The environment counts before the file** where the file does not overrule it. -/
theorem find_of_not_overrules
    (obeys : ∀ other, ¬ (read [] environment text).Overrules field other) :
    (read [] environment text).find field =
      ((read [] environment text).inEnvironment field <|> (read [] environment text).inFile field).map
        fun value => ⟨.text value, field.name⟩ := by
  rw [find_read]
  generalize read [] environment text = sources at obeys
  congr 1
  simp only [fromVariables, inEnvironment, inFile, textFor]
  cases named : field.secondName with
  | none => rfl
  | some second =>
    simp only [Option.bind_some]
    cases first : last second sources.environment with
    | some value => rfl
    | none =>
      cases present : last field.name sources.environment with
      | none => rfl
      | some value =>
        cases there : (last second sources.file).join with
        | none => rfl
        | some other => exact absurd ⟨second, named, first, by simp [present], there⟩ (obeys other)

/-! ### A file that overrules -/

/-- A file with a single binding and no variable in it. -/
theorem resolve_single {text : String} {name value : List Char}
    (bound : EnvFile.bindings text = [⟨name, some value⟩]) (plain : ∀ c ∈ value, c ≠ '$')
    (environment : List (String × String)) :
    EnvFile.resolve environment text = [(.ofList name, some (.ofList value))] := by
  simp [EnvFile.resolve, bound, EnvFile.resolveOne, EnvFile.setLast, EnvFile.expand_plain _ plain]

/-- **Some file overrules the region of an environment** that has it under its name alone. -/
theorem exists_overrules {environment : List (String × String)} {value : String}
    (missing : last "AWS_DEFAULT_REGION" environment = none)
    (present : last Field.region.name environment = some value) :
    ∃ text other, (read [] environment (some text)).Overrules .region other ∧ other ≠ value := by
  have bound (text : String) (letter : Char) (plain : letter ≠ '$')
      (binds : EnvFile.bindings text = [⟨"AWS_DEFAULT_REGION".toList, some [letter]⟩]) :
      (read [] environment (some text)).Overrules .region (.ofList [letter]) := by
    refine ⟨"AWS_DEFAULT_REGION", rfl, missing, by simp [read, present], ?_⟩
    have file := resolve_single binds (by simpa using plain) environment
    simp [read, file, last, first]
  by_cases same : value = "a"
  · refine ⟨"AWS_DEFAULT_REGION=b", "b", bound _ 'b' (by decide) (by decide +kernel), ?_⟩
    rw [same]
    decide
  · exact ⟨"AWS_DEFAULT_REGION=a", "a", bound _ 'a' (by decide) (by decide +kernel), Ne.symm same⟩

/-- **When the environment counts.** What it has for a field counts before the file exactly if the file does
not overrule it by another text, and whatever the file says exactly if the field is not the region or the
environment has the region under its second name. A file that overrules it counts instead, and can do so
for the region only. Where the environment has nothing the file counts, and then the default. -/
theorem environment_counts_iff (field : Field) (environment : List (String × String))
    (text : Option String) :
    let sources := read [] environment text
    (∀ value, sources.inEnvironment field = some value →
      (sources.find field = some ⟨.text value, field.name⟩ ↔
        ∀ other, sources.Overrules field other → other = value) ∧
      ((∀ text', (read [] environment text').find field = some ⟨.text value, field.name⟩) ↔
        (field = .region → (last "AWS_DEFAULT_REGION" environment).isSome))) ∧
    (∀ other, sources.Overrules field other →
      field = .region ∧ sources.find field = some ⟨.text other, field.name⟩) ∧
    (sources.inEnvironment field = none →
      sources.find field = (sources.inFile field).map fun other => ⟨.text other, field.name⟩) := by
  intro sources
  refine ⟨fun value held => ⟨?_, ?_, ?_⟩, ?_, ?_⟩
  · by_cases overruled : ∃ other, sources.Overrules field other
    · obtain ⟨other, overrules⟩ := overruled
      rw [find_of_overrules overrules]
      constructor
      · intro same other' overrules'
        cases same
        exact overrules'.unique overrules
      · intro all
        rw [all other overrules]
    · have obeys : ∀ other, ¬ sources.Overrules field other := not_exists.mp overruled
      rw [find_of_not_overrules obeys, held]
      exact iff_of_true rfl fun other overrules => absurd overrules (obeys other)
  · rintro always rfl
    cases missing : last "AWS_DEFAULT_REGION" environment with
    | some _ => rfl
    | none =>
      have present : last Field.region.name environment = some value := by
        rw [← held]
        exact (congrArg (· <|> last Field.region.name environment) missing).symm
      obtain ⟨text', other, overrules, different⟩ := exists_overrules missing present
      have found := (find_of_overrules overrules).symm.trans (always text')
      cases found
      exact absurd rfl different
  · intro second text'
    have obeys : ∀ other, ¬ (read [] environment text').Overrules field other := by
      intro other overrules
      have region := overrules.region
      subst region
      obtain ⟨_, named, missing, _⟩ := overrules
      cases named
      have present := second rfl
      rw [show last "AWS_DEFAULT_REGION" environment = none from missing] at present
      cases present
    rw [find_of_not_overrules obeys,
      show (read [] environment text').inEnvironment field = some value from held]
    rfl
  · intro other overrules
    exact ⟨overrules.region, find_of_overrules overrules⟩
  · intro nothing
    have obeys : ∀ other, ¬ sources.Overrules field other := by
      rintro other ⟨second, named, missing, present, _⟩
      have there : last field.name sources.environment = none := by
        rw [inEnvironment, named, Option.bind_some, missing] at nothing
        exact nothing
      rw [there] at present
      cases present
    rw [find_of_not_overrules obeys, nothing]
    rfl

end Sources

theorem Settings.load_of_toOption {sources : Sources} {settings : Settings}
    (loaded : (load sources).toOption = some settings) : load sources = .ok settings := by
  cases ended : load sources with
  | ok _ => simpa [ended, Except.toOption] using loaded
  | error _ => simp [ended, Except.toOption] at loaded

/-- The environment has the region under its name and the file has another under its second name: the
settings have that of the file, though they have that of the environment when there is no file. -/
theorem Settings.file_overrules_environment :
    Settings.load (.read [] [("AWS_REGION", "eu-west-1")] (some "AWS_DEFAULT_REGION=ap-south-1")) =
        .ok { region := "ap-south-1" } ∧
      Settings.load (.read [] [("AWS_REGION", "eu-west-1")] none) = .ok { region := "eu-west-1" } :=
  ⟨load_of_toOption (by decide +kernel), load_of_toOption (by decide +kernel)⟩

end FossilVault
