import FossilVault.Bucket.Request
import FossilVault.Text.Upper
/-
**Settings.** What a vault is set up with: where the bucket is and how to sign requests for it, how many
workers it serves, the limits of both directions and the level of the log.

* `LogLevel.ofText_name` — a level is read back from its name;
* `Settings.environment` — the settings as variables, with the secrets masked;
* `Settings.clientOptions` — what the settings mean for a client: an empty key or address counts as none.
-/

namespace FossilVault

/-- The levels that a log can be set to. -/
inductive LogLevel
  | critical | fatal | error | warn | warning | info | debug | notset
  deriving DecidableEq, Repr

namespace LogLevel

/-- The name of a level. -/
def name : LogLevel → String
  | .critical => "CRITICAL"
  | .fatal => "FATAL"
  | .error => "ERROR"
  | .warn => "WARN"
  | .warning => "WARNING"
  | .info => "INFO"
  | .debug => "DEBUG"
  | .notset => "NOTSET"

/-- All levels. -/
def all : List LogLevel := [.critical, .fatal, .error, .warn, .warning, .info, .debug, .notset]

/-- The level with a name, in any letter case. -/
def ofText (text : String) : Option LogLevel :=
  all.find? (·.name == Text.upper text)

theorem ofText_name (level : LogLevel) : ofText level.name = some level := by
  cases level <;> decide +kernel

end LogLevel

/-- What a vault is set up with. -/
structure Settings where
  region : String := "us-east-1"
  accessKey : Option String := none
  secretKey : Option String := none
  endpoint : Option String := none
  bucket : String := "fossil-storage"
  threads : Int := 1
  downloadLimit : Int := 0
  uploadLimit : Int := 0
  logLevel : LogLevel := .info
  deriving DecidableEq, Repr

namespace Settings

/-- A text that is there and not empty. -/
def filled (text : Option String) : Option String :=
  text.filter (!·.isEmpty)

/-- What a client is made with. -/
def clientOptions (settings : Settings) : Bucket.ClientOptions where
  region := settings.region
  accessKey := filled settings.accessKey
  secretKey := filled settings.secretKey
  endpoint := filled settings.endpoint

/-- A secret as it may be shown. -/
def masked (secret : Option String) : String :=
  if (filled secret).isSome then "****" else ""

/-- The settings as environment variables, with the secrets masked. -/
def environment (settings : Settings) : List (String × String) := [
  ("S3_BUCKET_NAME", settings.bucket),
  ("AWS_DEFAULT_REGION", settings.region),
  ("AWS_ENDPOINT_URL", settings.endpoint.getD ""),
  ("AWS_ACCESS_KEY_ID", masked settings.accessKey),
  ("AWS_SECRET_ACCESS_KEY", masked settings.secretKey),
  ("STORAGE_THREADS", toString settings.threads),
  ("DOWNLOAD_RATE_LIMIT", toString settings.downloadLimit),
  ("UPLOAD_RATE_LIMIT", toString settings.uploadLimit),
  ("LOG_LEVEL", settings.logLevel.name)]

end Settings

end FossilVault
