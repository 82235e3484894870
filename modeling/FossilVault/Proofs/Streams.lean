import FossilVault.Proofs.Archive.Transfer
import FossilVault.Proofs.Calls
/-
**Streams.** A download opens one stream, and it closes it however the copy from it ends: when all was
copied, when a read fails, and when the destination refuses a piece.

* `copy_streams` — copying opens and closes nothing;
* `Vault.streams_receive` — receiving opens a stream and closes it;
* `Vault.streams_download` — what a download opens, it closes.
-/

namespace FossilVault

variable {ω α : Type}

/-- How many streams were opened, and how many were closed. -/
def Session.streams (session : Session) : Nat × Nat :=
  (session.opened, session.released)

theorem readClock_streams (session : Session) : session.readClock.2.streams = session.streams := by
  unfold Session.readClock
  split <;> rfl

/-- **Copying opens and closes nothing.** -/
theorem copy_streams (rate : Int) (channel : String) (source : Source) (session : Session) :
    (copy rate channel source session).2.2.streams = session.streams := by
  obtain ⟨_, _, _, _, _, same⟩ := copy_copied rate channel source session
  rw [same]
  rfl

/-! ### Downloads -/

namespace Vault

/-- **Receiving opens a stream and closes it**, whatever its source gives and its destination takes. -/
theorem streams_receive (vault : Vault) (h : Handler Remote.interface ω) (worker : Int) (source : Source)
    (session : Session) (world : ω) :
    ((vault.receive worker source).run h session world).2.1.streams =
      (session.opened + 1, session.released + 1) := by
  simp only [receive, Program.run_bind, Program.run_modify, Program.run_attempt, Program.run_within,
    Program.run_ofExcept]
  have same := copy_streams (share vault.downloadLimit vault.workers) (downloadChannel worker) source
    { session with opened := session.opened + 1 }
  have closed := congrArg (fun streams => (streams.1, streams.2 + 1)) same
  exact closed

/-- **What a download opens, it closes.** -/
theorem streams_download (vault : Vault) {h : Handler Remote.interface ω}
    (leaves : ∀ c session world, (h c session world).2.1.streams = session.streams) (worker : Int)
    (path : String) (destination : Sink) (session : Session) (world : ω) :
    (vault.step h (session, world) (.download worker path destination)).2.1.streams =
      match (h (.download worker path) { session with sink := destination }.readClock.2 world).1 with
      | .ok _ => (session.opened + 1, session.released + 1)
      | .error _ => session.streams := by
  let ready : Session := { session with sink := destination }
  have start : ready.readClock.2.streams = session.streams := readClock_streams ready
  have followed := Program.run_followed h (vault.download worker path) (fun _ => Answer.done) ready world
  rw [step, perform, Program.run_bind, Program.run_modify]
  simp only
  rw [show _ = _ from congrArg (·.1.streams) followed, download,
    Program.observed_timed Session.streams readClock_streams fun _ _ _ _ => rfl, Program.run_bind,
    Remote.run_ask]
  have left := leaves (.download worker path) ready.readClock.2 world
  rw [start] at left
  generalize h (.download worker path) ready.readClock.2 world = answered at left ⊢
  obtain ⟨reply, session', world'⟩ := answered
  cases reply with
  | error fault => exact left
  | ok opened =>
    refine (vault.streams_receive h worker _ session' world').trans ?_
    exact congrArg (fun streams => (streams.1 + 1, streams.2 + 1)) left

end Vault

end FossilVault
