import FossilVault.Proofs.Archive.Transfer
import FossilVault.Proofs.Calls
/-
**Alike sessions.** Of its session a program shows nothing but the clock and the destination: how it ends
depends on neither the throttles and the requests that were turned down, nor on the log and the streams
that were opened before. So two runs that are answered alike from alike sessions end alike.

* `copyFrom_alike`, `copy_alike` — a copy does not tell alike sessions apart;
* `Program.EndAlike.bind`, `Program.EndAlike.timed` — sequences and timed programs end alike if their
  parts do;
* `Archive.Settles`, `Archive.Lawful.settles_compositional` — programs that end so whatever their session.
-/

namespace FossilVault

variable {β γ ω ω' : Type}

namespace Session.Alike

theorem symm {session session' : Session} (alike : session.Alike session') : session'.Alike session :=
  ⟨alike.clock.symm, alike.sink.symm⟩

/-- Alike sessions read the same clock. -/
theorem readClock {session session' : Session} (alike : session.Alike session') :
    session.readClock.1 = session'.readClock.1 ∧ session.readClock.2.Alike session'.readClock.2 := by
  unfold Session.readClock
  rw [alike.clock]
  split
  · exact ⟨rfl, alike⟩
  · exact ⟨rfl, alike⟩
  · exact ⟨rfl, rfl, alike.sink⟩

end Session.Alike

/-- A piece that passes its throttle is written before the next one is read. -/
theorem copyFrom_piece {throttle : Option Throttle} {size : Nat} {source next : Source}
    {session passed : Session} {copied : Nat} {first : UInt8} {rest : Bytes}
    (given : source.read size = (.ok (first :: rest), next))
    (admitted : letPass throttle (first :: rest).length session = (.ok (), passed)) :
    copyFrom throttle size source session copied =
      match passed.sink.write (first :: rest) with
      | .error fault => (.error fault, next, passed)
      | .ok sink =>
        copyFrom throttle size next { passed with sink } (copied + (first :: rest).length) := by
  rw [copyFrom]
  split <;> rename_i given' <;> rw [given] at given' <;> cases given'
  cases written : passed.sink.write (first :: rest) <;> simp only [admitted, written]

/-- **A copy does not tell alike sessions apart.** -/
theorem copyFrom_alike (throttle : Option Throttle) {size : Nat} (few : size ≤ copyLimit) (source : Source)
    {session session' : Session} (alike : session.Alike session') (copied : Nat) :
    (copyFrom throttle size source session copied).1 =
        (copyFrom throttle size source session' copied).1 ∧
      (copyFrom throttle size source session copied).2.2.Alike
        (copyFrom throttle size source session' copied).2.2 := by
  fun_induction copyFrom throttle size source session copied generalizing session' with
  | case1 source session copied fault next failed =>
    rw [copyFrom]
    split <;> rename_i failed' <;> rw [failed] at failed' <;> cases failed'
    exact ⟨rfl, alike⟩
  | case2 source session copied next given =>
    rw [copyFrom]
    split <;> rename_i given' <;> rw [given] at given' <;> cases given'
    exact ⟨rfl, alike⟩
  | case3 source session copied first rest next given piece fault ended =>
    rename_i refused
    obtain ⟨_, passed, _⟩ := letPass_ok throttle (Nat.le_trans (length_read_le given) few) session
    rw [passed] at refused
    cases refused
  | case4 source session copied first rest next given piece ended passed fault =>
    rename_i refused
    obtain ⟨ended', passed', _⟩ := letPass_ok throttle (Nat.le_trans (length_read_le given) few) session'
    have before := letPass_alike throttle (first :: rest).length session
    have before' := letPass_alike throttle (first :: rest).length session'
    rw [passed] at before
    rw [passed'] at before'
    have alike' : ended.Alike ended' := (before.symm.trans alike).trans before'
    rw [copyFrom_piece given passed', alike'.sink, refused]
    exact ⟨rfl, alike'⟩
  | case5 source session copied first rest next given piece ended passed sink accepted =>
    rename_i ih
    obtain ⟨ended', passed', _⟩ := letPass_ok throttle (Nat.le_trans (length_read_le given) few) session'
    have before := letPass_alike throttle (first :: rest).length session
    have before' := letPass_alike throttle (first :: rest).length session'
    rw [passed] at before
    rw [passed'] at before'
    have alike' : ended.Alike ended' := (before.symm.trans alike).trans before'
    rw [copyFrom_piece given passed', alike'.sink, accepted]
    exact ih ⟨alike'.clock, rfl⟩

/-- **A copy does not tell alike sessions apart**, whatever its limit. -/
theorem copy_alike (rate : Int) (channel : String) (source : Source) {session session' : Session}
    (alike : session.Alike session') :
    (copy rate channel source session).1 = (copy rate channel source session').1 ∧
      (copy rate channel source session).2.2.Alike (copy rate channel source session').2.2 := by
  have rated := Session.throttleFor_fst rate channel session
  have rated' := Session.throttleFor_fst rate channel session'
  have ready := ((throttleFor_alike rate channel session).symm.trans alike).trans
    (throttleFor_alike rate channel session')
  rw [← rated'] at rated
  unfold copy
  generalize session.throttleFor rate channel = made at rated ready
  generalize session'.throttleFor rate channel = made' at rated rated' ready
  obtain ⟨throttle, session⟩ := made
  obtain ⟨throttle', session'⟩ := made'
  cases rated
  cases throttle with
  | none => exact copyFrom_alike none (Nat.le_refl copyLimit) source ready 0
  | some throttle => exact copyFrom_alike (some throttle) (piece_le_copyLimit throttle) source ready 0

namespace Program

/-- Two runs end alike: with the same outcome, at the same time, and with the same destination. -/
def EndAlike (first : Except Fault β × Session × ω) (second : Except Fault β × Session × ω') : Prop :=
  first.1 = second.1 ∧ first.2.1.Alike second.2.1

namespace EndAlike

variable {I : Interface} {h : Handler I ω} {h' : Handler I ω'} {session session' : Session} {world : ω}
  {world' : ω'}

/-- A sequence ends alike if its parts do. -/
theorem bind {first first' : Program I β} {next next' : β → Program I γ}
    (before : EndAlike (first.run h session world) (first'.run h' session' world'))
    (after : ∀ value, (first.run h session world).1 = .ok value →
      EndAlike ((next value).run h (first.run h session world).2.1 (first.run h session world).2.2)
        ((next' value).run h' (first'.run h' session' world').2.1
          (first'.run h' session' world').2.2)) :
    EndAlike ((first >>= next).run h session world) ((first' >>= next').run h' session' world') := by
  rw [run_bind, run_bind]
  generalize first.run h session world = ended at before after
  generalize first'.run h' session' world' = ended' at before after
  obtain ⟨outcome, session, world⟩ := ended
  obtain ⟨outcome', session', world'⟩ := ended'
  obtain ⟨same, alike⟩ := before
  cases same
  cases outcome with
  | ok value => exact after value rfl
  | error fault => exact ⟨rfl, alike⟩

theorem followed {program program' : Program I β}
    (ends : EndAlike (program.run h session world) (program'.run h' session' world')) (f : β → γ) :
    EndAlike ((program >>= fun value => pure (f value)).run h session world)
      ((program' >>= fun value => pure (f value)).run h' session' world') :=
  ends.bind fun _ _ => ⟨rfl, ends.2⟩

/-- **A timed program ends alike if its body does.** -/
theorem timed {body body' : Program I β} (name : String) (worker : Int) (path : String)
    (alike : session.Alike session')
    (ends : EndAlike (body.run h session.readClock.2 world) (body'.run h' session'.readClock.2 world')) :
    EndAlike ((body.timed name worker path).run h session world)
      ((body'.timed name worker path).run h' session' world') := by
  obtain ⟨started, _⟩ := alike.readClock
  simp only [timed_eq, clock, run_bind, run_within, run_attempt, ← started]
  generalize body.run h session.readClock.2 world = ended at ends
  generalize body'.run h' session'.readClock.2 world' = ended' at ends
  obtain ⟨outcome, session₁, world₁⟩ := ended
  obtain ⟨outcome', session₁', world₁'⟩ := ended'
  obtain ⟨same, alike'⟩ := ends
  cases same
  obtain ⟨finished, later⟩ := Session.Alike.readClock alike'
  unfold reported
  split
  · simp only [run_ofExcept]
    exact ⟨rfl, alike'⟩
  · simp only [clock, run_bind, run_within, run_ofExcept, ← finished]
    cases session.readClock.1.elapsed session₁.readClock.1 with
    | error fault => exact ⟨rfl, later⟩
    | ok elapsed =>
      simp only [run_note]
      exact ⟨rfl, later.clock, later.sink⟩

end EndAlike

end Program

/-- Receiving does not tell alike sessions apart. -/
theorem Vault.receive_alike (vault : Vault) (h : Handler Remote.interface ω)
    (h' : Handler Remote.interface ω') (worker : Int) (source : Source) {session session' : Session}
    (alike : session.Alike session') (world : ω) (world' : ω') :
    Program.EndAlike ((vault.receive worker source).run h session world)
      ((vault.receive worker source).run h' session' world') := by
  have ready : Session.Alike { session with opened := session.opened + 1 }
      { session' with opened := session'.opened + 1 } := ⟨alike.clock, alike.sink⟩
  obtain ⟨same, copied⟩ :=
    copy_alike (share vault.downloadLimit vault.workers) (downloadChannel worker) source ready
  simp only [receive, Program.run_bind, Program.run_modify, Program.run_attempt, Program.run_within,
    Program.run_ofExcept]
  exact ⟨congrArg (Except.map fun _ => ()) same, copied.clock, copied.sink⟩

/-! ### Programs that look at no session -/

namespace Archive

variable {α : Type} {archive : Archive α ω} {world : ω} {writes : List Write}

/-- From a state of the archive a program ends so and writes this, whatever its session, and it touches
neither the clock nor the destination. -/
def Settles (archive : Archive α ω) (program : Program Remote.interface β) (world : ω)
    (outcome : Except Fault β) (writes : List Write) : Prop :=
  ∀ session, ∃ session' world', program.run archive.handler session world = (outcome, session', world') ∧
    session.Alike session' ∧ archive.sound world' ∧ archive.reaches writes world world'

theorem Settles.followed {program : Program Remote.interface β} {outcome : Except Fault β}
    (settles : archive.Settles program world outcome writes) (f : β → γ) :
    archive.Settles (program >>= fun value => pure (f value)) world (outcome.map f) writes := by
  intro session
  obtain ⟨session', world', run, rest⟩ := settles session
  refine ⟨session', world', ?_, rest⟩
  rw [Program.run_bind, run]
  cases outcome <;> rfl

/-- What ends so from every session ends alike on two archives. -/
theorem Settles.endAlike {archive' : Archive α ω'} {world' : ω'} {writes' : List Write}
    {program program' : Program Remote.interface β} {outcome : Except Fault β}
    (settles : archive.Settles program world outcome writes)
    (settles' : archive'.Settles program' world' outcome writes') {session session' : Session}
    (alike : session.Alike session') :
    Program.EndAlike (program.run archive.handler session world)
      (program'.run archive'.handler session' world') := by
  obtain ⟨ended, _, run, kept, _⟩ := settles session
  obtain ⟨ended', _, run', kept', _⟩ := settles' session'
  rw [run, run']
  exact ⟨rfl, (kept.symm.trans alike).trans kept'⟩

/-- **How programs end that look at no session**, told by their parts. -/
theorem Lawful.settles_compositional (lawful : archive.Lawful) :
    archive.Compositional fun program world outcome writes =>
      archive.Settles program world outcome writes where
  pure {_ world} sound value session := ⟨session, world, rfl, .refl session, sound, lawful.stay world⟩
  fail {_ world} sound fault session := ⟨session, world, rfl, .refl session, sound, lawful.stay world⟩
  note {world} sound level part message session :=
    ⟨_, world, Program.run_note _ level part message session world, .note level part message session,
      sound, lawful.stay world⟩
  ask _ answers := by
    intro session
    rw [Remote.run_ask]
    exact answers session
  bind before after := by
    intro session
    obtain ⟨middle, world', ran, alike, sound, reached⟩ := before session
    obtain ⟨last, world'', ran', alike', sound', reached'⟩ := after world' sound reached middle
    refine ⟨last, world'', ?_, alike.trans alike', sound', lawful.trans reached reached'⟩
    rw [Program.run_bind, ran]
    exact ran'

end Archive

end FossilVault
