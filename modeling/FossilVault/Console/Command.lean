import FossilVault.Console.Directory
import FossilVault.Settings.Basic
import FossilVault.Vault
/-
**Commands.** The words of a command line and what they ask for. The first word names the command, and
options come only before it; behind it stand its operands, with options anywhere between them. The only
option is `--help`, and `--` ends the options. A file to upload is read while the words are read, so a
file that cannot be read is a wrong operand.

* `Verb.ofName_name` — a command is found by its name;
* `Invocation.parse`, `Verb.command` — the two steps of reading: the command, then its operands;
* `Task.perform` — what a command does on a connected vault, and what it prints.
-/

namespace FossilVault.Console

/-- The commands. -/
inductive Verb
  | showConfig | capabilities | list | stat | hide | unhide | remove | put | get
  deriving DecidableEq, Repr

namespace Verb

/-- All commands. -/
def all : List Verb := [.showConfig, .capabilities, .list, .stat, .hide, .unhide, .remove, .put, .get]

/-- The name of a command. -/
def name : Verb → String
  | .showConfig => "show-config"
  | .capabilities => "capabilities"
  | .list => "ls"
  | .stat => "stat"
  | .hide => "hide"
  | .unhide => "unhide"
  | .remove => "rm"
  | .put => "put"
  | .get => "get"

/-- The operands of a command, as its usage shows them. -/
def operands : Verb → String
  | .showConfig | .capabilities => ""
  | .list => " [DIRECTORY]"
  | .stat | .remove => " PATH"
  | .hide | .unhide => " NAME"
  | .put => " LOCAL_FILE PATH"
  | .get => " PATH LOCAL_FILE"

/-- The command with a name. -/
def ofName (name : String) : Option Verb :=
  all.find? (·.name == name)

theorem ofName_name (verb : Verb) : ofName verb.name = some verb := by
  cases verb <;> decide +kernel

end Verb

/-- Where a download goes. -/
inductive Target
  /-- The standard output. -/
  | output
  /-- The file that a path leads to. -/
  | file (path : String)
  deriving DecidableEq, Repr

/-- What is to be done on a connected vault. -/
inductive Task
  | list (directory : String)
  | stat (path : String)
  | hide (name : String)
  | unhide (name : String)
  | remove (path : String)
  | put (content : Bytes) (path : String)
  | get (path : String) (target : Target)
  deriving DecidableEq, Repr

/-- What is to be done. -/
inductive Command
  | showConfig
  | capabilities
  | task (task : Task)
  deriving DecidableEq, Repr

/-- Why no command is run. -/
inductive Unparsed
  /-- The words make no command. -/
  | wrongUsage
  /-- Help was asked for. -/
  | helpWanted
  /-- An operand is not even looked at. -/
  | broken (fault : Fault)
  deriving DecidableEq, Repr

/-! ### Options -/

/-- Tells whether a word is an option; a single `-` is an operand. -/
def isOption (word : String) : Bool :=
  Text.beginsWith word "-" && word != "-"

/-- The words that are no options, and whether help was asked for. -/
structure Scanned where
  operands : List String
  help : Bool := false
  deriving DecidableEq, Repr

/-- Reads options up to `--`, or up to the first operand unless options may stand between operands;
nothing when there is an unknown option. -/
def scan (between : Bool) : List String → Option Scanned
  | [] => some ⟨[], false⟩
  | word :: rest =>
    if word = "--" then some ⟨rest, false⟩
    else if word = "--help" then (scan between rest).map fun scanned => { scanned with help := true }
    else if isOption word then none
    else if between then
      (scan between rest).map fun scanned => { scanned with operands := word :: scanned.operands }
    else some ⟨word :: rest, false⟩

/-- The operands, unless help is asked for or an option is unknown. -/
def readOptions (between : Bool) (words : List String) : Except Unparsed (List String) :=
  match scan between words with
  | none => .error .wrongUsage
  | some ⟨_, true⟩ => .error .helpWanted
  | some ⟨operands, false⟩ => .ok operands

theorem scan_operands {words : List String} (plain : ∀ word ∈ words, isOption word = false) :
    scan true words = some ⟨words, false⟩ := by
  induction words with
  | nil => rfl
  | cons word rest ih =>
    have here := plain word (.head _)
    have notEnd : word ≠ "--" := by
      rintro rfl
      revert here
      decide +kernel
    have notHelp : word ≠ "--help" := by
      rintro rfl
      revert here
      decide +kernel
    simp [scan, notEnd, notHelp, here, ih fun word among => plain word (.tail _ among)]

/-! ### Reading a command line -/

/-- A command and the words behind it. -/
structure Invocation where
  verb : Verb
  words : List String
  deriving DecidableEq, Repr

/-- The command that a command line names. A word behind `--` that is no command but an option is read
as an option once more. -/
def Invocation.parse (words : List String) : Except Unparsed Invocation := do
  match ← readOptions false words with
  | [] => .error .wrongUsage
  | name :: rest =>
    match Verb.ofName name with
    | some verb => return ⟨verb, rest⟩
    | none =>
      let _ ← readOptions false (name :: rest)
      .error .wrongUsage

/-- What the operands of a command ask for; `-` is the standard input or output. -/
def Verb.command (input : Bytes) (directory : Directory) : Verb → List String → Except Unparsed Command
  | .showConfig, [] => .ok .showConfig
  | .capabilities, [] => .ok .capabilities
  | .list, [] => .ok (.task (.list ""))
  | .list, [path] => .ok (.task (.list path))
  | .stat, [path] => .ok (.task (.stat path))
  | .hide, [name] => .ok (.task (.hide name))
  | .unhide, [name] => .ok (.task (.unhide name))
  | .remove, [path] => .ok (.task (.remove path))
  | .put, file :: rest =>
    if Directory.isCut file then .error (.broken .cutPath)
    else
      match if file = "-" then some input else directory.open? file, rest with
      | some content, [path] => .ok (.task (.put content path))
      | _, _ => .error .wrongUsage
  | .get, [path, file] => .ok (.task (.get path (if file = "-" then .output else .file file)))
  | _, _ => .error .wrongUsage

/-- The command that a name with its words asks for. -/
def Invocation.command (input : Bytes) (directory : Directory) (invocation : Invocation) :
    Except Unparsed Command := do
  invocation.verb.command input directory (← readOptions true invocation.words)

/-! ### Performing a task -/

/-- What a task prints, and whether it found what it asked for. -/
structure Report where
  lines : List String
  found : Bool := true
  deriving DecidableEq, Repr

/-- The worker of the command line. -/
def worker : Int := 0

/-- The lines of a listing, with sizes where they are known. -/
def listingLines : List String → List Int → List String
  | [], _ => []
  | file :: files, [] => file :: listingLines files []
  | file :: files, size :: sizes =>
    (Text.padLeft 12 (toString size) ++ "  " ++ file) :: listingLines files sizes

/-- The line for a file that was looked at. -/
def infoReport (path : String) (info : FileInfo) : Report :=
  if info.present then ⟨[path ++ ": " ++ toString info.size ++ " bytes"], true⟩
  else ⟨[path ++ ": not found"], false⟩

/-- What a task does on a connected vault. -/
def Task.perform (vault : Vault) : Task → Program Remote.interface Report
  | .list directory => do
    let listing ← Vault.list worker directory
    return ⟨listingLines listing.files listing.sizes, true⟩
  | .stat path => do
    return infoReport path (← Vault.inspect worker path)
  | .hide name => do
    Vault.move worker name (Fossil.fossilOf name)
    return ⟨["✅ Hid " ++ name], true⟩
  | .unhide name => do
    Vault.move worker (Fossil.fossilOf name) name
    return ⟨["✅ Restored " ++ name], true⟩
  | .remove path => do
    Vault.delete worker path
    return ⟨["✅ Deleted " ++ path], true⟩
  | .put content path => do
    vault.upload worker path content
    return ⟨["✅ Uploaded " ++ toString content.length ++ " bytes to " ++ path], true⟩
  | .get path _ => do
    vault.download worker path
    return ⟨["✅ Downloaded " ++ path], true⟩

/-- The lines that show the settings. -/
def settingsLines (settings : Settings) : List String :=
  "Current Configuration:" :: settings.environment.map fun pair => "  " ++ pair.1 ++ ": " ++ pair.2

/-- The lines that show what the backup engine can rely on. -/
def capabilitiesLines (capabilities : Capabilities) : List String := [
  "  Cache needed: " ++ Text.flag capabilities.cacheNeeded,
  "  Move implemented: " ++ Text.flag capabilities.moveImplemented,
  "  Strongly consistent: " ++ Text.flag capabilities.stronglyConsistent,
  "  Fast listing: " ++ Text.flag capabilities.fastListing]

/-- The usage of all commands. -/
def usageLines : List String :=
  "Usage: vault [--help] COMMAND" :: Verb.all.map fun verb => "  " ++ verb.name ++ verb.operands

end FossilVault.Console
