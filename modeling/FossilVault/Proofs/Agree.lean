import FossilVault.Proofs.Archive.Transfer
import FossilVault.Proofs.Bucket.Confinement
/-
**Operations on remotes that answer alike.** A vault decides what it asks for by what it was answered alone.
So an operation that is performed twice, in whatever sessions, on remotes that answer its calls alike, leaves
them alike.

* `Program.Agree.bind` — sequences agree on two remotes if their parts do;
* `Vault.related_step` — an operation leaves remotes alike that answer its calls alike.
-/

namespace FossilVault

variable {I : Interface} {ω ω' α β : Type}

namespace Program

/-- From related worlds two programs end alike and leave related worlds, whatever their sessions. -/
def Agree (h : Handler I ω) (h' : Handler I ω') (related : ω → ω' → Prop) (program program' : Program I α) :
    Prop :=
  ∀ session session' world world', related world world' →
    let ended := program.run h session world
    let ended' := program'.run h' session' world'
    ended.1 = ended'.1 ∧ related ended.2.2 ended'.2.2

namespace Agree

variable {h : Handler I ω} {h' : Handler I ω'} {related : ω → ω' → Prop}

theorem pure (value : α) : Agree h h' related (pure value) (pure value) :=
  fun _ _ _ _ alike => ⟨rfl, alike⟩

theorem fail (fault : Fault) : Agree h h' related (.fail fault : Program I α) (.fail fault) :=
  fun _ _ _ _ alike => ⟨rfl, alike⟩

theorem ofExcept (outcome : Except Fault α) :
    Agree h h' related (Program.ofExcept outcome) (Program.ofExcept outcome) := by
  cases outcome with
  | ok value => exact .pure value
  | error fault => exact .fail fault

theorem note (level : Log.Level) (part : Log.Part) (message : String) :
    Agree h h' related (Program.note level part message) (Program.note level part message) :=
  fun _ _ _ _ alike => ⟨rfl, alike⟩

/-- **Sequences agree if their parts do.** -/
theorem bind {first first' : Program I α} {next next' : α → Program I β}
    (before : Agree h h' related first first')
    (after : ∀ value, Agree h h' related (next value) (next' value)) :
    Agree h h' related (first >>= next) (first' >>= next') := by
  intro session session' world world' alike
  have parts := before session session' world world' alike
  simp only [run_bind]
  generalize first.run h session world = ended at parts
  generalize first'.run h' session' world' = ended' at parts
  obtain ⟨outcome, session, world⟩ := ended
  obtain ⟨outcome', session', world'⟩ := ended'
  obtain ⟨same, alike⟩ := parts
  cases same
  cases outcome with
  | ok value => exact after value session session' world world' alike
  | error fault => exact ⟨rfl, alike⟩

end Agree

end Program

/-! ### Operations on remotes that answer alike -/

namespace Vault

open Program

variable {h : Handler Remote.interface ω} {h' : Handler Remote.interface ω'} {related : ω → ω' → Prop}
  (answers : ∀ c : Remote.Call, c.worker?.isSome → Agree h h' related (Remote.ask c) (Remote.ask c))

include answers

theorem agree_list (worker : Int) (directory : String) :
    Agree h h' related (list worker directory) (list worker directory) := by
  unfold list
  simp only
  split
  · exact (answers _ rfl).bind fun _ => .pure _
  · split <;> exact (answers _ rfl).bind fun _ => .pure _

theorem agree_deleteAll (worker : Int) (name : String) (entries : List Entry) :
    Agree h h' related (deleteAll worker name entries) (deleteAll worker name entries) := by
  induction entries with
  | nil => exact .pure ()
  | cons entry rest ih => exact (answers _ rfl).bind fun _ => ih

theorem agree_delete (worker : Int) (path : String) :
    Agree h h' related (delete worker path) (delete worker path) := by
  unfold delete
  simp only
  split
  case isTrue =>
    refine (answers _ rfl).bind fun entries => (agree_deleteAll answers worker _ _).bind fun _ => ?_
    split
    · exact .note _ _ _
    · exact .pure ()
  case isFalse =>
    refine (answers _ rfl).bind fun entries => ?_
    cases entries with
    | nil => exact .pure ()
    | cons newest older => exact (answers _ rfl).bind fun _ => .note _ _ _

theorem agree_move (worker : Int) (source target : String) :
    Agree h h' related (move worker source target) (move worker source target) := by
  unfold move
  simp only
  split
  case isTrue =>
    refine (answers _ rfl).bind fun entries => ?_
    split
    · exact (answers _ rfl).bind fun _ => .note _ _ _
    · exact .note _ _ _
  case isFalse =>
    split
    case isTrue =>
      refine (answers _ rfl).bind fun entries => ?_
      split
      · exact (answers _ rfl).bind fun _ => .note _ _ _
      · exact .note _ _ _
    case isFalse => exact Agree.bind (.note _ _ _) fun _ => .fail _

theorem agree_inspect (worker : Int) (path : String) :
    Agree h h' related (inspect worker path) (inspect worker path) :=
  (answers _ rfl).bind fun _ => .pure _

omit answers in
/-- A download leaves the remote as its call does. -/
theorem world_fetch (vault : Vault) (h : Handler Remote.interface ω) (worker : Int) (path : String)
    (destination : Sink) (now : Session × ω) :
    ∃ session, (vault.step h now (.download worker path destination)).2.2 =
      ((Remote.ask (.download worker path)).run h session now.2).2.2 := by
  let started : Session := { now.1 with sink := destination }
  refine ⟨started.readClock.2, (vault.world_download h worker path destination now.1 now.2).trans ?_⟩
  rw [run_bind]
  generalize (Remote.ask (.download worker path)).run h started.readClock.2 now.2 = opened
  obtain ⟨outcome, session, world⟩ := opened
  cases outcome with
  | error fault => rfl
  | ok opened => exact vault.run_receive_world h worker opened.source session world

/-- **An operation leaves remotes alike that answer its calls alike**, whatever its sessions. A transfer may
end otherwise in another session, for it tells its time, but it makes the same call in all. -/
theorem related_step (vault : Vault) (operation : Operation) (now : Session × ω) (now' : Session × ω')
    (alike : related now.2 now'.2) :
    related (vault.step h now operation).2.2 (vault.step h' now' operation).2.2 := by
  have untimed {α : Type} {program : Program Remote.interface α} (f : α → Answer)
      (agrees : Agree h h' related program program) :
      related ((program >>= fun value => pure (f value)).run h now.1 now.2).2.2
        ((program >>= fun value => pure (f value)).run h' now'.1 now'.2).2.2 :=
    (agrees.bind (fun value => .pure (f value)) now.1 now'.1 now.2 now'.2 alike).2
  cases operation with
  | upload worker path content =>
    have left := vault.world_upload h worker path content now.1 now.2
    have left' := vault.world_upload h' worker path content now'.1 now'.2
    rw [left, left']
    exact (answers _ rfl _ _ now.2 now'.2 alike).2
  | download worker path destination =>
    obtain ⟨_, left⟩ := vault.world_fetch h worker path destination now
    obtain ⟨_, left'⟩ := vault.world_fetch h' worker path destination now'
    rw [left, left']
    exact (answers _ rfl _ _ now.2 now'.2 alike).2
  | move worker source target => exact untimed (fun _ => .done) (agree_move answers worker source target)
  | delete worker path => exact untimed (fun _ => .done) (agree_delete answers worker path)
  | inspect worker path => exact untimed .info (agree_inspect answers worker path)
  | list worker directory =>
    simp only [step, perform]
    exact untimed .listing (agree_list answers worker directory)
  | makeDirectory => exact alike

end Vault

end FossilVault
