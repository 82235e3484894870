import FossilVault.Number.Integer
import FossilVault.Settings.Basic
import FossilVault.Settings.EnvFile.Variable
import FossilVault.Settings.Value
/-
**Loading settings.** A setting comes from the first source that has it: the values given by hand, the
environment, the environment file, the default. Four settings have a second name. In one source the
second name wins over the name; between the environment and the file it wins over the name as well,
whichever of the two has it; values given by hand win over both. Names are matched in any letter case:
of several values of a name the first given by hand counts, and the last of the environment and of the
file, which may be that there is none.

* `Sources.find` — where the value of a setting comes from;
* `Settings.load` — the settings, or every field whose value is refused, in the order of the fields.
-/

namespace FossilVault

/-- The fields of the settings. -/
inductive Field
  | region | accessKey | secretKey | endpoint | bucket | threads | downloadLimit | uploadLimit | logLevel
  deriving DecidableEq, Repr

namespace Field

/-- All fields, in the order in which refusals are told. -/
def all : List Field := [
  .region, .accessKey, .secretKey, .endpoint, .bucket, .threads, .downloadLimit, .uploadLimit, .logLevel]

/-- The name of a field. -/
def name : Field → String
  | .region => "aws_region"
  | .accessKey => "aws_access_key_id"
  | .secretKey => "aws_secret_access_key"
  | .endpoint => "aws_endpoint_url"
  | .bucket => "s3_bucket_name"
  | .threads => "storage_threads"
  | .downloadLimit => "download_rate_limit"
  | .uploadLimit => "upload_rate_limit"
  | .logLevel => "log_level"

/-- The second name of a field, if it has one. -/
def secondName : Field → Option String
  | .region => some "AWS_DEFAULT_REGION"
  | .accessKey => some "AWS_ACCESS_KEY_ID"
  | .secretKey => some "AWS_SECRET_ACCESS_KEY"
  | .endpoint => some "AWS_ENDPOINT_URL"
  | _ => none

end Field

/-- Why a value is refused. -/
inductive Refusal
  /-- The value is of no shape that can be an integer. -/
  | notInteger
  /-- The number has a fractional part. -/
  | fractional
  /-- The number is infinite, or none at all. -/
  | notFinite
  /-- The text is no written integer. -/
  | unreadable
  /-- The written integer has too many digits, or the fraction is too large. -/
  | oversized
  /-- The value is no text. -/
  | notText
  /-- A vault needs at least one worker. -/
  | fewThreads (threads : Int)
  /-- A limit cannot be negative. -/
  | negativeLimit (limit : Int)
  /-- The log has no such level. -/
  | unknownLevel (given : String)
  deriving DecidableEq, Repr

namespace Refusal

/-- The code of a refusal. -/
def code : Refusal → String
  | .notInteger => "int_type"
  | .fractional => "int_from_float"
  | .notFinite => "finite_number"
  | .unreadable => "int_parsing"
  | .oversized => "int_parsing_size"
  | .notText => "string_type"
  | .fewThreads _ | .negativeLimit _ | .unknownLevel _ => "value_error"

/-- The text of a refusal. -/
def message : Refusal → String
  | .notInteger => "Input should be a valid integer"
  | .fractional => "Input should be a valid integer, got a number with a fractional part"
  | .notFinite => "Input should be a finite number"
  | .unreadable => "Input should be a valid integer, unable to parse string as an integer"
  | .oversized => "Unable to parse input string as an integer, exceeded maximum size"
  | .notText => "Input should be a valid string"
  | .fewThreads threads =>
    "Value error, Invalid storage_threads: " ++ toString threads ++ ". Must be at least 1"
  | .negativeLimit limit =>
    "Value error, Invalid rate limit: " ++ toString limit ++ ". Use 0 for unlimited"
  | .unknownLevel given => "Value error, Invalid log_level: " ++ given

end Refusal

/-- A refused value, with the name under which it was given. -/
structure FieldError where
  location : String
  refusal : Refusal
  deriving DecidableEq, Repr

/-! ### Sources -/

/-- Where settings come from. -/
structure Sources where
  /-- The values given by hand. -/
  given : List (String × Value) := []
  /-- The environment. -/
  environment : List (String × String) := []
  /-- What the environment file binds; a name may be bound to no value. -/
  file : List (String × Option String) := []

/-- A value with the name under which it was given. -/
structure Supplied where
  value : Value
  location : String

namespace Sources

/-- Values given by hand, an environment and the text of an environment file, if there is one. -/
def read (given : List (String × Value)) (environment : List (String × String)) (text : Option String) :
    Sources where
  given := given
  environment := environment
  file := (text.map (EnvFile.resolve environment)).getD []

/-- The first value of a name in any letter case. -/
def first {β : Type} (name : String) (pairs : List (String × β)) : Option β :=
  (pairs.find? fun pair => Text.lower pair.1 == Text.lower name).map (·.2)

/-- The last value of a name in any letter case. -/
def last {β : Type} (name : String) (pairs : List (String × β)) : Option β :=
  first name pairs.reverse

/-- Tells whether exactly this name has a value. -/
def has {β : Type} (name : String) (pairs : List (String × β)) : Bool :=
  pairs.any (·.1 == name)

/-- The name that a refusal of a value given by hand tells: the field's name if just that was given, or
else its second name, if it has one. -/
def location (field : Field) (sources : Sources) : String :=
  match field.secondName with
  | none => field.name
  | some other =>
    if has field.name sources.given && !has other sources.given then field.name else other

/-- The value given by hand for a field, under its second name or under its name. -/
def byHand (field : Field) (sources : Sources) : Option Supplied :=
  let value := field.secondName.bind (first · sources.given) <|> first field.name sources.given
  value.map (⟨·, sources.location field⟩)

/-- The text that the environment or the file has for a name. -/
def textFor (name : String) (sources : Sources) : Option String :=
  last name sources.environment <|> (last name sources.file).join

/-- The text that the environment or the file has for a field. -/
def fromVariables (field : Field) (sources : Sources) : Option String :=
  field.secondName.bind (textFor · sources) <|> sources.textFor field.name

/-- The value of a field and the name it was given under; nothing when the default counts. -/
def find (field : Field) (sources : Sources) : Option Supplied :=
  sources.byHand field <|> (sources.fromVariables field).map fun text => ⟨.text text, field.name⟩

end Sources

/-! ### Reading values -/

namespace Value

/-- No fraction of this magnitude, `2 ^ 63`, is taken for an integer. -/
def wholeLimit : Nat := 9223372036854775808

/-- Reads an integer. -/
def asInteger : Value → Except Refusal Int
  | .whole number => .ok number
  | .truth flag => .ok (if flag then 1 else 0)
  | .fraction number =>
    match Number.wholeOf number with
    | some integer => if integer.natAbs < wholeLimit then .ok integer else .error .oversized
    | none => .error (if number.isFinite then .fractional else .notFinite)
  | .text words =>
    match Number.parseInteger words with
    | .ok integer => .ok integer
    | .error .malformed => .error .unreadable
    | .error .oversized => .error .oversized
  | .nothing | .list _ | .record _ => .error .notInteger

/-- Reads a text. -/
def asText : Value → Except Refusal String
  | .text words => .ok words
  | _ => .error .notText

/-- Reads a text that may be missing. -/
def asOptionalText : Value → Except Refusal (Option String)
  | .nothing => .ok none
  | value => value.asText.map some

/-- Reads a number of workers. -/
def asThreads (value : Value) : Except Refusal Int := do
  let threads ← value.asInteger
  if threads < 1 then .error (.fewThreads threads) else .ok threads

/-- Reads a limit. -/
def asLimit (value : Value) : Except Refusal Int := do
  let limit ← value.asInteger
  if limit < 0 then .error (.negativeLimit limit) else .ok limit

/-- Reads a level of the log; any value is taken by the text that it is shown as. -/
def asLogLevel (value : Value) : Except Refusal LogLevel :=
  match LogLevel.ofText value.display with
  | some level => .ok level
  | none => .error (.unknownLevel value.display)

end Value

namespace Settings

/-- The value of one field, or its refusal; a refused field keeps its default in the settings. -/
def loadField {β : Type} (field : Field) (read : Value → Except Refusal β) (default : β)
    (sources : Sources) : β × List FieldError :=
  match sources.find field with
  | none => (default, [])
  | some supplied =>
    match read supplied.value with
    | .ok value => (value, [])
    | .error refusal => (default, [⟨supplied.location, refusal⟩])

/-- The settings that the sources give, or all refused fields. -/
def load (sources : Sources) : Except (List FieldError) Settings :=
  let usual : Settings := {}
  let region := loadField .region Value.asText usual.region sources
  let accessKey := loadField .accessKey Value.asOptionalText usual.accessKey sources
  let secretKey := loadField .secretKey Value.asOptionalText usual.secretKey sources
  let endpoint := loadField .endpoint Value.asOptionalText usual.endpoint sources
  let bucket := loadField .bucket Value.asText usual.bucket sources
  let threads := loadField .threads Value.asThreads usual.threads sources
  let downloadLimit := loadField .downloadLimit Value.asLimit usual.downloadLimit sources
  let uploadLimit := loadField .uploadLimit Value.asLimit usual.uploadLimit sources
  let logLevel := loadField .logLevel Value.asLogLevel usual.logLevel sources
  let errors := region.2 ++ accessKey.2 ++ secretKey.2 ++ endpoint.2 ++ bucket.2 ++ threads.2 ++
    downloadLimit.2 ++ uploadLimit.2 ++ logLevel.2
  if errors.isEmpty then
    .ok ⟨region.1, accessKey.1, secretKey.1, endpoint.1, bucket.1, threads.1, downloadLimit.1,
      uploadLimit.1, logLevel.1⟩
  else .error errors

end Settings

/-! ### Settings kept -/

/-- The settings of a running program: loaded once and kept until they are cleared. Every load that
succeeds gives an object of its own, known by its number. -/
structure SettingsCache where
  kept : Option (Nat × Settings) := none
  loaded : Nat := 0

namespace SettingsCache

/-- Forgets the settings. -/
def clear (cache : SettingsCache) : SettingsCache :=
  { cache with kept := none }

/-- The kept settings, or those that the sources give now; a refusal is not kept. -/
def get (sources : Sources) (cache : SettingsCache) :
    Except (List FieldError) (Nat × Settings) × SettingsCache :=
  match cache.kept with
  | some kept => (.ok kept, cache)
  | none =>
    match Settings.load sources with
    | .error errors => (.error errors, cache)
    | .ok settings =>
      let kept := (cache.loaded, settings)
      (.ok kept, ⟨some kept, cache.loaded + 1⟩)

theorem get_get (sources later : Sources) (cache : SettingsCache) {kept : Nat × Settings}
    (loaded : (cache.get sources).1 = .ok kept) :
    ((cache.get sources).2.get later).1 = .ok kept := by
  unfold get at loaded ⊢
  cases before : cache.kept with
  | some held =>
    simp only [before] at loaded ⊢
    exact loaded
  | none =>
    simp only [before] at loaded ⊢
    cases fresh : Settings.load sources with
    | error errors => simp [fresh] at loaded
    | ok settings => simpa [fresh] using loaded

end SettingsCache

end FossilVault
