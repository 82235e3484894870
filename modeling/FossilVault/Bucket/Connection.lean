import FossilVault.Bucket.Listing
import FossilVault.Bucket.Pool
import FossilVault.Remote.Call
import FossilVault.Text.Basic
import FossilVault.Vault
/-
**Connections.** A pool of clients and the bucket chosen on it serve as a remote: every call becomes
requests made by the client of the calling worker, on the chosen bucket. Hiding is deleting without
naming a version, which puts a marker on top; deleting a version names it.

* `Connection.serve` — the requests of each call;
* `Connection.chosen_after` — only a check of a bucket that succeeds chooses one;
* `Connection.client_first` — a worker outside the pool is refused before anything else;
* `attach` — the way from settings to a connected vault.
-/

namespace FossilVault.Bucket

/-- A pool of clients, and the bucket chosen on it. -/
structure Connection where
  pool : Pool
  bucket : Option String := none
  deriving DecidableEq, Repr

namespace Connection

/-- The chosen bucket. -/
def chosen (connection : Connection) : Except Fault String :=
  match connection.bucket with
  | some bucket => .ok bucket
  | none => .error .noBucket

/-- The client of a worker and the bucket it works on. -/
def target (worker : Int) (connection : Connection) : Except Fault (Nat × String) := do
  let client ← connection.pool.client worker
  let bucket ← connection.chosen
  return (client, bucket)

/-- Checks the credentials by a request that needs them and no bucket. -/
def authorize (connection : Connection) : Program interface Unit := do
  let client ← Program.ofExcept (connection.pool.client 0)
  let buckets ← (ask (.listBuckets client) : Program interface (Option (List String)))
  Program.note .info .bucket
    ("Authorized; account can see " ++ toString (buckets.getD []).length ++ " bucket(s)")

/-- The versioning status that hide markers need. -/
def versioned : String := "Enabled"

/-- Checks that a bucket is there and keeps versions. -/
def check (bucket : String) (connection : Connection) : Program interface Unit := do
  let client ← Program.ofExcept (connection.pool.client 0)
  (ask (.headBucket client bucket) : Program interface Unit)
  let status ← (ask (.bucketVersioning client bucket) : Program interface (Option String))
  if status = some versioned then
    Program.note .info .bucket ("Using S3 bucket: " ++ bucket)
  else .fail (.notVersioned bucket status)

/-- Lists versions, whatever pages they come in. -/
def list (worker : Int) (stem : String) (exact withHidden : Bool) (connection : Connection) :
    Program interface (List Entry) := do
  let (client, bucket) ← Program.ofExcept (connection.target worker)
  let pages ← (ask (.listVersions client bucket stem) : Program interface (List Page))
  let entries ← Program.ofExcept (Listing.entries stem exact withHidden pages)
  Program.note .debug .bucket
    ("Listed " ++ toString entries.length ++ " version(s) under '" ++ stem ++ "' on worker " ++
      toString worker ++ " (single=" ++ Text.flag exact ++ ", hidden=" ++ Text.flag withHidden ++ ")")
  return entries

/-- Deletes one version for good. -/
def delete (worker : Int) (name id : String) (connection : Connection) : Program interface Unit := do
  let (client, bucket) ← Program.ofExcept (connection.target worker)
  let _ ← (ask (.deleteObject client bucket name (some id)) : Program interface (Option String))
  Program.note .debug .bucket ("Deleted version " ++ id ++ " of '" ++ name ++ "'")

/-- Puts a marker on top of a name and gives its identifier, empty when the service does not tell. -/
def hide (worker : Int) (name : String) (connection : Connection) : Program interface String := do
  let (client, bucket) ← Program.ofExcept (connection.target worker)
  let marker ← (ask (.deleteObject client bucket name none) : Program interface (Option String))
  let id := marker.getD ""
  Program.note .debug .bucket ("Hid '" ++ name ++ "' under marker " ++ id)
  return id

/-- What an upload carries: with a limit, a body that is read behind the throttle of the worker. -/
def payload (worker : Int) (content : Bytes) (rate : Int) : Program interface Payload :=
  if 0 < rate then
    Program.within fun session =>
      let made := Body.make content rate (Vault.uploadChannel worker) session
      (.ok (.wrapped made.1), made.2)
  else return .plain content

/-- Stores a content as the newest version of a name. -/
def upload (worker : Int) (name : String) (content : Bytes) (rate : Int) (connection : Connection) :
    Program interface Unit := do
  let payload ← payload worker content rate
  let (client, bucket) ← Program.ofExcept (connection.target worker)
  (ask (.putObject client bucket name payload content.length "application/octet-stream") :
    Program interface Unit)
  Program.note .debug .bucket
    ("Uploaded " ++ toString content.length ++ " bytes to '" ++ name ++ "'")

/-- What is known of an object that was opened; the tag comes without the quotes around it. -/
def details (object : Object) : Remote.Details where
  id := object.id
  size := object.length.getD 0
  tag := Text.strip '"' (object.tag.getD "")

/-- Opens the newest version of a name. -/
def download (worker : Int) (name : String) (connection : Connection) :
    Program interface Remote.Opened := do
  let (client, bucket) ← Program.ofExcept (connection.target worker)
  let object ← (ask (.getObject client bucket name) : Program interface Object)
  let source ← Program.ofExcept (Listing.required "Body" object.source)
  return { source, details := details object }

/-- The requests of each call. -/
def serve (connection : Connection) : (c : Remote.Call) → Program interface (Remote.Reply c)
  | .authorize => connection.authorize
  | .findBucket bucket => connection.check bucket
  | .list worker stem exact withHidden => connection.list worker stem exact withHidden
  | .delete worker name id => connection.delete worker name id
  | .hide worker name => connection.hide worker name
  | .upload worker name content rate => connection.upload worker name content rate
  | .download worker name => connection.download worker name

/-- The connection after a call that ended so: a bucket that passed its check is the chosen one. -/
def after {α : Type} (c : Remote.Call) (outcome : Except Fault α) (connection : Connection) : Connection :=
  match c, outcome with
  | .findBucket bucket, .ok _ => { connection with bucket := some bucket }
  | _, _ => connection

/-- The remote that a connection is. -/
def remote {ω : Type} (h : Handler interface ω) : Handler Remote.interface (Connection × ω) :=
  fun c session state =>
    let ended := (state.1.serve c).run h session state.2
    (ended.1, ended.2.1, (state.1.after c ended.1, ended.2.2))

/-! ### The chosen bucket -/

theorem pool_after {α : Type} (c : Remote.Call) (outcome : Except Fault α) (connection : Connection) :
    (connection.after c outcome).pool = connection.pool := by
  unfold after
  split <;> rfl

theorem chosen_after {α : Type} (c : Remote.Call) (outcome : Except Fault α) (connection : Connection) :
    (connection.after c outcome).bucket = connection.bucket ∨
      ∃ bucket value, c = .findBucket bucket ∧ outcome = .ok value ∧
        (connection.after c outcome).bucket = some bucket := by
  unfold after
  split
  · exact .inr ⟨_, _, rfl, rfl, rfl⟩
  · exact .inl rfl

theorem client_first {worker : Int} {connection : Connection} {fault : Fault}
    (outside : connection.pool.client worker = .error fault) :
    connection.target worker = .error fault := by
  simp [target, outside, bind, Except.bind]

end Connection

/-! ### Connecting -/

/-- A connected vault with the connection that its calls go through. -/
structure Attached where
  vault : Vault
  connection : Connection
  deriving DecidableEq, Repr

/-- Makes the pool that the settings ask for, checks the credentials and chooses the bucket. -/
def attach {ω : Type} (settings : Settings) (h : Handler interface ω) (session : Session) (world : ω) :
    Except Fault Attached × Session × ω :=
  match (Pool.create settings).run h session world with
  | (.error fault, session, world) => (.error fault, session, world)
  | (.ok pool, session, world) =>
    let connecting :=
      Vault.connect settings.bucket pool.size settings.downloadLimit settings.uploadLimit
    match connecting.run (Connection.remote h) session (⟨pool, none⟩, world) with
    | (.error fault, session, (_, world)) => (.error fault, session, world)
    | (.ok vault, session, (connection, world)) => (.ok ⟨vault, connection⟩, session, world)

end FossilVault.Bucket
