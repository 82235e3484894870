import FossilVault.Bucket.Service
import FossilVault.Console.Run
/-
**The command line.** One command on a vault whose bucket lives in memory while the command runs. The
words name the command, the settings come from the environment and the file `.env`, and files are those
of the working directory.
-/

namespace FossilVault.Console

/-- The names under which the environment may hold settings. -/
def variableNames : List String :=
  Field.all.flatMap fun field => field.secondName.toList ++ [Text.upper field.name, field.name]

/-- The variables that settings are read from. -/
def readEnvironment : IO (List (String × String)) :=
  variableNames.filterMapM fun name => return (← IO.getEnv name).map (name, ·)

/-- The files that words lead to, as far as they can be read. -/
def readDirectory (words : List String) : IO Directory := do
  let names := words.filterMap fun word =>
    (Place.resolve (Directory.look {}) word).toOption.bind Place.name?
  let files ← (Surroundings.environmentFile :: names).filterMapM fun (name : String) => do
    try
      let content ← IO.FS.readBinFile name
      return some (name, content.toList)
    catch _ => return none
  return ⟨files⟩

/-- Everything that a stream still gives. -/
partial def readAll (stream : IO.FS.Stream) (before : ByteArray) : IO ByteArray := do
  let piece ← stream.read 65536
  if piece.isEmpty then return before else readAll stream (before ++ piece)

/-- Writes the files that a command changed. -/
def writeDirectory (before after : Directory) : IO Unit :=
  for (name, content) in after.files do
    if before.content? name != some content then
      IO.FS.writeBinFile name ⟨content.toArray⟩

/-- The service that a command works on: the bucket of its settings, and nothing in it. -/
def serviceFor (surroundings : Surroundings) : Bucket.Service :=
  match surroundings.settings with
  | .ok settings => { buckets := [(settings.bucket, {})] }
  | .error _ => {}

/-- Says why settings were refused. -/
def explain : Escape → String
  | .fault fault => fault.message
  | .settings errors =>
    "; ".intercalate (errors.map fun error => error.location ++ ": " ++ error.refusal.message)

end FossilVault.Console

open FossilVault FossilVault.Console in
/-- Runs the command that the words name. -/
def main (words : List String) : IO UInt32 := do
  let directory ← readDirectory words
  let input ← if words.contains "-" then readAll (← IO.getStdin) .empty else pure .empty
  let surroundings : Surroundings := ⟨← readEnvironment, input.toList, directory⟩
  let after := (run surroundings words Bucket.Service.answer {} (serviceFor surroundings)).1
  writeDirectory directory after.directory
  (← IO.getStdout).write ⟨after.outcome.output.toArray⟩
  IO.eprint after.outcome.complaint
  if let some escape := after.outcome.escaped then IO.eprintln (explain escape)
  return after.outcome.status.toUInt32
