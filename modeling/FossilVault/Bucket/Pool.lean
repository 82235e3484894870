import FossilVault.Settings.Basic
/-
**Pools.** A client serves one worker at a time, so a pool makes one for each worker before the first
request and hands out no other.

* `Pool.client_eq_error_iff` — a worker outside the pool gets no client.
-/

namespace FossilVault.Bucket

/-- The clients of a pool, by worker. -/
structure Pool where
  size : Int
  clients : List Nat
  deriving DecidableEq, Repr

namespace Pool

/-- The client of a worker. -/
def client (worker : Int) (pool : Pool) : Except Fault Nat :=
  if 0 ≤ worker ∧ worker < pool.size then .ok (pool.clients.getD worker.toNat 0)
  else .error (.workerOutOfRange worker pool.size)

/-- The number of workers. -/
def length (pool : Pool) : Except Fault Int :=
  if pool.size < 0 then .error .negativeLength else .ok pool.size

/-- Makes the client of a worker; a failure is logged and passed on. -/
def createClient (options : ClientOptions) (worker : Nat) : Program interface Nat := do
  match ← (ask (.createClient options)).attempt with
  | .ok client =>
    Program.note .debug .pool ("Created s3 client for worker " ++ toString worker)
    return client
  | .error fault =>
    if fault.isInterrupt then .fail fault
    else
      Program.note .error .pool
        ("Error creating s3 client for worker " ++ toString worker ++ ": " ++ fault.message)
      .fail fault

/-- Makes the clients of `count` workers from a given one on. -/
def createClients (options : ClientOptions) : Nat → Nat → Program interface (List Nat)
  | _, 0 => return []
  | worker, count + 1 => do
    let client ← createClient options worker
    let rest ← createClients options (worker + 1) count
    return client :: rest

/-- The number of workers of a pool: the one asked for, or that of the settings when none or zero is
asked for. -/
def sizeFor (settings : Settings) (threads : Option Int) : Int :=
  (threads.filter (· != 0)).getD settings.threads

/-- Makes a pool with a client for each of its workers. -/
def create (settings : Settings) (threads : Option Int := none) : Program interface Pool := do
  let size := sizeFor settings threads
  Program.note .info .pool "Initializing S3ClientPool"
  Program.note .info .pool ("  Region: " ++ settings.region)
  Program.note .info .pool ("  Endpoint: " ++ settings.endpoint.getD "None")
  Program.note .info .pool ("  Workers: " ++ toString size)
  let clients ← createClients settings.clientOptions 0 size.toNat
  return ⟨size, clients⟩

theorem client_eq_error_iff {worker : Int} {pool : Pool} :
    pool.client worker = .error (.workerOutOfRange worker pool.size) ↔
      worker < 0 ∨ pool.size ≤ worker := by
  unfold client
  split
  · constructor
    · intro impossible
      cases impossible
    · omega
  · constructor
    · omega
    · intro
      rfl

end Pool

end FossilVault.Bucket
