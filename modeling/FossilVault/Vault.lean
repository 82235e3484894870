import FossilVault.Fossil
import FossilVault.Remote.Call
import FossilVault.Transfer.Timed
/-
**The vault.** A bucket of versioned objects as a flat file system. Hidden objects show up as fossils:
moving `n` to `n.fsl` hides it, moving it back removes the marker, and deleting `n.fsl` purges the
marker with everything below it. Between two operations the vault keeps nothing but its rate limits.

* `Vault.list`, `Vault.delete`, `Vault.move`, `Vault.inspect`, `Vault.download`, `Vault.upload` — the
  operations, each a program of calls on a remote;
* `mem_doomed` — a purge deletes versions of the purged name only.
-/

namespace FossilVault

/-- What the backup engine can rely on. -/
structure Capabilities where
  /-- A local cache of snapshots is worth keeping. -/
  cacheNeeded : Bool := false
  /-- Files can be moved. -/
  moveImplemented : Bool := false
  /-- A read sees every write before it. -/
  stronglyConsistent : Bool := false
  /-- A listing tells all there is to know about the files of a directory. -/
  fastListing : Bool := false
  deriving DecidableEq, Repr

/-- A connected vault: how many workers its remote serves, and the limits of each direction in KB per
second, zero for none. -/
structure Vault where
  workers : Int := 1
  downloadLimit : Int := 0
  uploadLimit : Int := 0
  deriving DecidableEq, Repr

/-- The files directly in a directory; sizes come only where the remote gives them for free. -/
structure Listing where
  files : List String := []
  sizes : List Int := []
  deriving DecidableEq, Repr

/-- What is known of one file. -/
structure FileInfo where
  present : Bool
  isDirectory : Bool
  size : Int
  deriving DecidableEq, Repr

namespace Vault

/-- What the engine can rely on here. -/
def capabilities : Capabilities := ⟨true, true, true, true⟩

/-- The directory of snapshots, listed by their identifiers. -/
def snapshotsDirectory : String := "snapshots"

/-- The directory of chunks, listed with fossils and sizes. -/
def chunksDirectory : String := "chunks"

/-- Sets the limits of both directions. -/
def limit (downloadLimit uploadLimit : Int) (vault : Vault) : Vault :=
  { vault with downloadLimit, uploadLimit }

/-! ### Listing -/

/-- The names in ascending order, each once. -/
def sortedNames (names : List String) : List String :=
  names.eraseDups.mergeSort (· ≤ ·)

/-- A directory without the slashes at its end. -/
def bareDirectory (directory : String) : String :=
  Text.trimEnd '/' directory

/-- What the stored names in a directory start with. -/
def stemOf (bare : String) : String :=
  if bare.isEmpty then "" else bare ++ "/"

/-- The identifiers of the snapshots among the entries under `stem`. -/
def snapshotListing (stem : String) (entries : List Entry) : Listing where
  files := sortedNames <| entries.map fun entry =>
    Text.upTo '/' (Text.skip stem.length entry.name) ++ "/"

/-- The chunks among the entries under `stem`, hidden ones as fossils, with their sizes. -/
def chunkListing (stem : String) (entries : List Entry) : Listing where
  files := (leaders entries).map fun entry =>
    Fossil.project (Text.skip stem.length entry.name) entry.state
  sizes := (leaders entries).map (·.size)

/-- The names of the entries under `stem`. -/
def plainListing (stem : String) (entries : List Entry) : Listing where
  files := entries.map fun entry => Text.skip stem.length entry.name

/-- Lists a directory. -/
def list (worker : Int) (directory : String) : Program Remote.interface Listing := do
  let bare := bareDirectory directory
  let stem := stemOf bare
  if bare = snapshotsDirectory then
    return snapshotListing stem (← Remote.ask (.list worker stem false false))
  else if bare = chunksDirectory then
    return chunkListing stem (← Remote.ask (.list worker stem false true))
  else
    return plainListing stem (← Remote.ask (.list worker stem false false))

/-! ### Deleting -/

/-- The versions that a purge of `name` deletes: from the first marker of the name on, all of its
versions. Active versions above that marker stay. -/
def doomed (name : String) (entries : List Entry) : List Entry :=
  (entries.dropWhile fun entry => !(entry.name == name && entry.isHidden)).filter (·.name == name)

theorem mem_doomed {name : String} {entries : List Entry} {entry : Entry}
    (among : entry ∈ doomed name entries) : entry.name = name ∧ entry ∈ entries := by
  obtain ⟨below, named⟩ := List.mem_filter.mp among
  exact ⟨by simpa using named, (List.dropWhile_sublist _).mem below⟩

/-- Deletes the given versions of a name, one after the other. -/
def deleteAll (worker : Int) (name : String) : List Entry → Program Remote.interface Unit
  | [] => pure ()
  | entry :: rest => do
    Remote.ask (.delete worker name entry.id)
    deleteAll worker name rest

/-- Deletes the first marker of a name with everything below it. -/
def purge (worker : Int) (name : String) : Program Remote.interface Unit := do
  let entries ← Remote.ask (.list worker name true true)
  let dead := doomed name entries
  deleteAll worker name dead
  if !dead.isEmpty then
    Program.note .info .vault
      ("Deleted fossil '" ++ Fossil.fossilOf name ++ "' (" ++ toString dead.length ++ " version(s))")

/-- Deletes the newest version of a name; a name without versions is no fault. -/
def deleteNewest (worker : Int) (name : String) : Program Remote.interface Unit := do
  match (← Remote.ask (.list worker name true true) : List Entry) with
  | [] => pure ()
  | newest :: _ =>
    Remote.ask (.delete worker name newest.id)
    Program.note .debug .vault ("Deleted newest version " ++ newest.id ++ " of '" ++ name ++ "'")

/-- Deletes the newest version of a file, or purges a fossil. -/
def delete (worker : Int) (path : String) : Program Remote.interface Unit :=
  let logical := Fossil.parse path
  if logical.fossil then purge worker logical.name else deleteNewest worker logical.name

/-! ### Moving -/

/-- Hides a name whose newest version is active. A second marker would keep the name hidden after one
move back, so a name that is hidden or missing stays as it is. -/
def hide (worker : Int) (name : String) : Program Remote.interface Unit := do
  match stateOf name (← Remote.ask (.list worker name true true)) with
  | some (.active ..) =>
    let marker ← Remote.ask (.hide worker name)
    Program.note .info .vault ("Fossilized '" ++ name ++ "' (marker " ++ marker ++ ")")
  | _ =>
    Program.note .debug .vault ("'" ++ name ++ "' has no active version; nothing to fossilize")

/-- Removes the marker on top of a name, so that the version below it shows again. -/
def resurrect (worker : Int) (name : String) : Program Remote.interface Unit := do
  match stateOf name (← Remote.ask (.list worker name true true)) with
  | some (.hidden marker _) =>
    Remote.ask (.delete worker name marker)
    Program.note .info .vault ("Resurrected '" ++ name ++ "' (removed marker " ++ marker ++ ")")
  | _ =>
    Program.note .debug .vault ("'" ++ name ++ "' is not a fossil; nothing to resurrect")

/-- Refuses a move, loudly: the engine and the vault disagree on what a fossil is. -/
def refuseMove (source target : String) : Program Remote.interface Unit := do
  let fault := Fault.unsupportedMove source target
  Program.note .critical .vault fault.message
  .fail fault

/-- Moves a fossil to its bare name, or a bare name to its fossil. -/
def move (worker : Int) (source target : String) : Program Remote.interface Unit :=
  let logical := Fossil.parse source
  if logical.fossil ∧ logical.name = target then resurrect worker target
  else if ¬ logical.fossil ∧ target = Fossil.fossilOf source then hide worker source
  else refuseMove source target

/-! ### Looking, sending and fetching -/

/-- A bucket has no directories to make. -/
def makeDirectory (_worker : Int) (_directory : String) : Program Remote.interface Unit :=
  pure ()

/-- What the state of a name means for a path that asks for the fossil or for the bare name. -/
def infoOf (fossil : Bool) : Option State → FileInfo
  | none => ⟨false, false, 0⟩
  | some state => if state.isHidden = fossil then ⟨true, false, state.size⟩ else ⟨false, false, 0⟩

/-- Tells whether a file is there, and how large it is. -/
def inspect (worker : Int) (path : String) : Program Remote.interface FileInfo := do
  let logical := Fossil.parse path
  let entries ← Remote.ask (.list worker logical.name true logical.fossil)
  return infoOf logical.fossil (stateOf logical.name entries)

/-- The channel of a worker's downloads. -/
def downloadChannel (worker : Int) : String := "download:" ++ toString worker

/-- The channel of a worker's uploads. -/
def uploadChannel (worker : Int) : String := "upload:" ++ toString worker

/-- Copies an opened stream to the destination and closes it, however the copy ends. -/
def receive (vault : Vault) (worker : Int) (source : Source) : Program Remote.interface Unit := do
  Program.modify fun session => { session with opened := session.opened + 1 }
  let outcome ← Program.attempt <| Program.within fun session =>
    let copied := copy (share vault.downloadLimit vault.workers) (downloadChannel worker) source session
    (copied.1, copied.2.2)
  Program.modify fun session => { session with released := session.released + 1 }
  Program.ofExcept (outcome.map fun _ => ())

/-- Fetches a file into the session's destination. -/
def download (vault : Vault) (worker : Int) (path : String) : Program Remote.interface Unit :=
  Program.timed "download_file" worker path do
    let opened ← Remote.ask (.download worker path)
    vault.receive worker (Remote.Opened.source opened)

/-- Stores a content under a path. -/
def upload (vault : Vault) (worker : Int) (path : String) (content : Bytes) :
    Program Remote.interface Unit :=
  Program.timed "upload_file" worker path <|
    Remote.ask (.upload worker path content (share vault.uploadLimit vault.workers))

/-! ### Connecting -/

/-- Checks the credentials, chooses the bucket and gives a vault with the limits. -/
def connect (bucket : String) (workers downloadLimit uploadLimit : Int) :
    Program Remote.interface Vault := do
  Remote.ask .authorize
  Remote.ask (.findBucket bucket)
  Program.note .info .vault
    ("Storage ready on bucket '" ++ bucket ++ "' with " ++ toString workers ++ " worker(s)")
  return { workers, downloadLimit, uploadLimit }

end Vault

end FossilVault
