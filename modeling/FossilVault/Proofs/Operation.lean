import FossilVault.Vault
/-
**Operations.** What a backup engine asks of a vault, as data, so that a run of the vault is a list.
A run goes on after an operation that ends with a fault: the engine decides what it asks for next,
and what an operation left behind on the remote stays.

* `Vault.perform`, `Vault.step` — the program of an operation, and how it ends on a remote;
* `Vault.after` — what a run leaves, its operations done one after the other.
-/

namespace FossilVault

/-- What can be asked of a vault. -/
inductive Operation
  | upload (worker : Int) (path : String) (content : Bytes)
  | download (worker : Int) (path : String) (destination : Sink)
  | move (worker : Int) (source target : String)
  | delete (worker : Int) (path : String)
  | inspect (worker : Int) (path : String)
  | list (worker : Int) (directory : String)
  | makeDirectory (worker : Int) (directory : String)

/-- What an operation answers. -/
inductive Answer
  | done
  | info (info : FileInfo)
  | listing (listing : Listing)
  deriving DecidableEq, Repr

/-- The worker that an operation names. -/
def Operation.worker : Operation → Int
  | .upload worker .. | .download worker .. | .move worker .. | .delete worker _ | .inspect worker _
  | .list worker _ | .makeDirectory worker _ => worker

namespace Vault

/-- The program of an operation; a download goes to the destination that comes with it. -/
def perform (vault : Vault) : Operation → Program Remote.interface Answer
  | .upload worker path content => do
    vault.upload worker path content
    return .done
  | .download worker path destination => do
    Program.modify fun session => { session with sink := destination }
    vault.download worker path
    return .done
  | .move worker source target => do
    Vault.move worker source target
    return .done
  | .delete worker path => do
    Vault.delete worker path
    return .done
  | .inspect worker path => return .info (← Vault.inspect worker path)
  | .list worker directory => return .listing (← Vault.list worker directory)
  | .makeDirectory worker directory => do
    Vault.makeDirectory worker directory
    return .done

variable {ω : Type}

/-- How an operation ends: its answer or fault, and the session and the remote that it leaves. -/
abbrev Ended (ω : Type) : Type := Except Fault Answer × Session × ω

/-- Performs an operation from a session and a remote. -/
def step (vault : Vault) (h : Handler Remote.interface ω) (state : Session × ω) (operation : Operation) :
    Ended ω :=
  (vault.perform operation).run h state.1 state.2

/-- The session and the remote after a run. -/
def after (vault : Vault) (h : Handler Remote.interface ω) (operations : List Operation)
    (state : Session × ω) : Session × ω :=
  operations.foldl (fun state operation => (vault.step h state operation).2) state

end Vault

end FossilVault
