import FossilVault.Proofs.Failures
import FossilVault.Proofs.Ledger.Interrupted
import FossilVault.Proofs.Streams
/-
**Failing calls on a ledger.** When a call fails, the operation ends with the fault of this call, and the
ledger is as it was before the operation; only a purge has deleted what comes before the version whose
deletion failed. Besides the faults of its calls a move has one of its own, for two paths that mean no
change, and then it has called nothing.

* `Vault.failing_raises` — on any remote, the fault of a failing call is that of the operation;
* `Ledger.failing_keeps`, `Ledger.failing_purge` — what is left on a ledger;
* `Vault.move_contract_iff` — which moves are refused;
* `Ledger.failing_calls` — all of it, for every operation, call and fault.
-/

namespace FossilVault

namespace Vault

variable {ω : Type}

/-- The calls that an operation makes on a remote, the latest first. -/
def callsMade (vault : Vault) (h : Handler Remote.interface ω) (operation : Operation)
    (session : Session) (world : ω) : List Remote.Call :=
  (vault.step h.recorded (session, ⟨world, []⟩) operation).2.2.calls

variable (vault : Vault) {verb : Remote.Verb} {number : Nat}

/-- **The fault of a failing call is that of the operation.** -/
theorem failing_raises (h : Handler Remote.interface ω) (operation : Operation) {session : Session}
    (steady : session.desk.Steady) (world : ω) (fault : Fault) (some : 1 ≤ number)
    (made : number ≤ Remote.countOf verb (vault.callsMade h operation session world)) :
    (vault.step (h.failing verb number fault) (session, ⟨world, []⟩) operation).1 = .error fault :=
  (vault.relays_perform operation).run_failing h fault steady some made

/-- A move that means no change is refused, without a call. -/
theorem step_move_refused (h : Handler Remote.interface ω) (worker : Int) {source target : String}
    (notBack : source ≠ Fossil.fossilOf target)
    (notThere : ¬ (Fossil.isFossil source = false ∧ target = Fossil.fossilOf source))
    (session : Session) (world : ω) :
    ∃ session', vault.step h (session, world) (.move worker source target) =
      (.error (.unsupportedMove source target), session', world) := by
  rw [step, perform, move_refused worker notBack fun there => notThere ⟨there.2, there.1⟩]
  exact ⟨_, rfl⟩

/-- **A move breaks the contract exactly if it means no change**, and then it has called nothing. -/
theorem move_contract_iff {h : Handler Remote.interface ω}
    (remote : ∀ c session world fault, (h c session world).1 = .error fault → fault.kind ≠ .contract)
    (worker : Int) (source target : String) (session : Session) (world : ω) :
    let ended := vault.step h.recorded (session, ⟨world, []⟩) (.move worker source target)
    ((∃ fault, ended.1 = .error fault ∧ fault.kind = .contract) ↔
        ¬ (Fossil.isFossil source = false ∧ target = Fossil.fossilOf source) ∧
          source ≠ Fossil.fossilOf target) ∧
      ∀ fault, ended.1 = .error fault → fault.kind = .contract →
        fault = .unsupportedMove source target ∧ ended.2.2 = ⟨world, []⟩ := by
  intro ended
  by_cases refused : ¬ (Fossil.isFossil source = false ∧ target = Fossil.fossilOf source) ∧
      source ≠ Fossil.fossilOf target
  · obtain ⟨session', ran⟩ :=
      vault.step_move_refused h.recorded worker refused.2 refused.1 session ⟨world, []⟩
    have ran : ended = (.error (.unsupportedMove source target), session', ⟨world, []⟩) := ran
    rw [ran]
    refine ⟨iff_of_true ⟨_, rfl, rfl⟩ refused, ?_⟩
    intro fault same _
    cases same
    exact ⟨rfl, rfl⟩
  · have means : (Operation.move worker source target).change.isSome = true := by
      by_cases back : source = Fossil.fossilOf target
      · rw [back, Operation.change_unhide]
        rfl
      · obtain ⟨bare, rfl⟩ := Decidable.not_not.mp fun not => refused ⟨not, back⟩
        rw [Operation.change_hide worker bare]
        rfl
    have own : (vault.perform (.move worker source target)).FailsAs fun fault =>
        fault.kind ≠ .contract :=
      (failsAs_move means).bind fun _ => .done _
    have others (fault : Fault) (failed : ended.1 = .error fault) : fault.kind ≠ .contract := by
      refine own.run (h := h.recorded) ?_ failed
      intro c session watched fault answered
      rw [Handler.recorded_eq] at answered
      exact remote c session watched.world fault answered
    refine ⟨iff_of_false ?_ refused, ?_⟩
    · rintro ⟨fault, failed, contract⟩
      exact others fault failed contract
    · intro fault failed contract
      exact absurd contract (others fault failed)

end Vault

namespace Ledger

variable (vault : Vault) {ledger : Ledger} {session : Session} {verb : Remote.Verb} {number : Nat}

/-- A call that writes nothing leaves the ledger as it is. -/
theorem answer_idle (c : Remote.Call) (session : Session) (ledger : Ledger) (reads : c.writes = []) :
    (answer c session ledger).2.2 = ledger := by
  cases c with
  | authorize | findBucket | list | download => rfl
  | delete | hide | upload => cases reads

/-- **A failing call leaves the ledger as it was**, unless it is a deletion of a purge. -/
theorem failing_keeps (steady : session.desk.Steady) {operation : Operation}
    (single : verb = .delete → ∀ worker name, operation ≠ .delete worker (Fossil.fossilOf name))
    (fault : Fault) (some : 1 ≤ number)
    (made : number ≤ Remote.countOf verb (vault.callsMade answer operation session ledger)) :
    (vault.step (answer.failing verb number fault) (session, ⟨ledger, []⟩) operation).2.2.world =
      ledger :=
  (vault.reads_perform single).run_failing (vault.relays_perform operation) answer_idle fault steady some
    made

/-- **A purge whose deletion fails** leaves the ledger without the versions before it, where no two versions
of its name have one id. -/
theorem failing_purge {name : String} (distinct : ((ledger.history name).map (·.id)).Nodup)
    (steady : session.desk.Steady) (worker : Int) (fault : Fault) (some : 1 ≤ number)
    (made : number ≤ Remote.countOf .delete
      (vault.callsMade answer (.delete worker (Fossil.fossilOf name)) session ledger)) :
    (vault.step (answer.failing .delete number fault) (session, ⟨ledger, []⟩)
      (.delete worker (Fossil.fossilOf name))).2.2.world = ledger.cut name (number - 1) := by
  have raised := vault.failing_raises answer _ steady ledger fault some made
  have short : vault.step (answer.failing .delete number fault) (session, ⟨ledger, []⟩)
      (.delete worker (Fossil.fossilOf name)) =
        cutShort vault number fault worker name session ledger := rfl
  rw [short] at raised ⊢
  by_cases within : 1 ≤ number ∧ number ≤ (ledger.dead name).length
  · obtain ⟨calls, cut⟩ := cutShort_error vault distinct worker within.1 within.2
    rw [cut]
  · rw [cutShort_ok vault worker name within] at raised
    cases raised

/-- No call on a ledger breaks the contract. -/
theorem answer_no_contract (c : Remote.Call) (session : Session) (ledger : Ledger) (fault : Fault)
    (failed : (answer c session ledger).1 = .error fault) : fault.kind ≠ .contract := by
  cases c with
  | download worker name =>
    simp only [answer, opened] at failed
    split at failed
    · cases failed
    · cases failed
      simp [Fault.kind]
  | authorize | findBucket | list | delete | hide | upload => cases failed

/-- **Faults are passed on as they are, and leave everything as it was.** The clock of the session reads
doubles.

* On any remote, for any operation and any of the calls that it makes: if that call fails instead of being
  done, the operation ends with its fault.
* On a ledger everything stored is then as before the operation, except that a purge whose deletion with
  some number fails has deleted as many versions as come before it, from the first marker on. For the purge
  the versions of its name have different ids; nothing else is asked of the ledger.
* A move breaks the contract exactly if it goes neither from a bare path to its fossil nor from a fossil
  back to its name, provided that the remote does not, and then it has made no call.
* A download closes the stream that it opened, whatever the stream gives and the destination takes. -/
theorem failing_calls (vault : Vault) :
    (∀ (ω : Type) (h : Handler Remote.interface ω) (operation : Operation) (session : Session)
        (world : ω) (verb : Remote.Verb) (number : Nat) (fault : Fault), session.desk.Steady →
      1 ≤ number → number ≤ Remote.countOf verb (vault.callsMade h operation session world) →
      (vault.step (h.failing verb number fault) (session, ⟨world, []⟩) operation).1 = .error fault) ∧
    (∀ (ledger : Ledger) (operation : Operation) (session : Session) (verb : Remote.Verb) (number : Nat)
        (fault : Fault), session.desk.Steady → 1 ≤ number →
      number ≤ Remote.countOf verb (vault.callsMade answer operation session ledger) →
      let left :=
        (vault.step (answer.failing verb number fault) (session, ⟨ledger, []⟩) operation).2.2.world
      ((verb = .delete → ∀ worker name, operation ≠ .delete worker (Fossil.fossilOf name)) →
        left = ledger) ∧
      ∀ worker name, verb = .delete → operation = .delete worker (Fossil.fossilOf name) →
        ((ledger.history name).map (·.id)).Nodup → left = ledger.cut name (number - 1)) ∧
    (∀ (ω : Type) (h : Handler Remote.interface ω) (worker : Int) (source target : String)
        (session : Session) (world : ω),
      (∀ c session world fault, (h c session world).1 = .error fault → fault.kind ≠ .contract) →
      let ended := vault.step h.recorded (session, ⟨world, []⟩) (.move worker source target)
      ((∃ fault, ended.1 = .error fault ∧ fault.kind = .contract) ↔
        ¬ (Fossil.isFossil source = false ∧ target = Fossil.fossilOf source) ∧
          source ≠ Fossil.fossilOf target) ∧
      ∀ fault, ended.1 = .error fault → fault.kind = .contract →
        fault = .unsupportedMove source target ∧ ended.2.2 = ⟨world, []⟩) ∧
    ∀ (ω : Type) (h : Handler Remote.interface ω) (worker : Int) (path : String) (destination : Sink)
        (session : Session) (world : ω),
      (∀ c session world, (h c session world).2.1.streams = session.streams) →
      (vault.step h (session, world) (.download worker path destination)).2.1.streams =
        match (h (.download worker path) { session with sink := destination }.readClock.2 world).1 with
        | .ok _ => (session.opened + 1, session.released + 1)
        | .error _ => session.streams := by
  refine ⟨?_, ?_, ?_, ?_⟩
  · intro ω h operation session world verb number fault steady some made
    exact vault.failing_raises h operation steady world fault some made
  · intro ledger operation session verb number fault steady some made
    refine ⟨fun single => failing_keeps vault steady single fault some made, ?_⟩
    rintro worker name rfl rfl distinct
    exact failing_purge vault distinct steady worker fault some made
  · intro ω h worker source target session world remote
    exact vault.move_contract_iff remote worker source target session world
  · intro ω h worker path destination session world leaves
    exact vault.streams_download leaves worker path destination session world

/-- A purge of two versions whose second deletion fails has deleted the first, and an upload that fails has
stored nothing. A move from a fossil to the fossil of that is refused. And a download to a destination that
takes nothing closes its stream. -/
theorem failing_calls_of_two_versions :
    let ledger := (Vault.after {} answer
      [.upload 0 "n" [120], .move 0 "n" (Fossil.fossilOf "n"), .upload 0 "m" [121]] ({}, {})).2
    let fault := Fault.external .system "connection reset"
    let purge := Operation.delete 0 (Fossil.fossilOf "n")
    let ended := Vault.step {} (answer.failing .delete 2 fault) ({}, ⟨ledger, []⟩) purge
    let renewed := Vault.step {} (answer.failing .upload 1 fault) ({}, ⟨ledger, []⟩) (.upload 0 "m" [122])
    let moved := Vault.step {} answer.recorded ({}, ⟨ledger, []⟩) (.move 0 "n.fsl" "n.fsl.fsl")
    ((ledger.history "n").map (·.id)).Nodup ∧ ({} : Session).desk.Steady ∧
      Remote.countOf .delete (Vault.callsMade {} answer purge {} ledger) = 2 ∧
      ended.1 = .error fault ∧ ended.2.2.world = ledger.cut "n" 1 ∧ renewed.2.2.world = ledger ∧
      (∃ fault, moved.1 = .error fault ∧ fault.kind = .contract) ∧
      (Vault.step {} answer ({}, ledger) (.download 0 "m" (.closed fault))).2.1.streams = (1, 1) := by
  intro ledger fault purge ended renewed moved
  have distinct : ((ledger.history "n").map (·.id)).Nodup := (sound_after {} _ {}).distinct "n"
  have steady : ({} : Session).desk.Steady := fun _ among => (List.not_mem_nil among).elim
  have counted : Remote.countOf .delete (Vault.callsMade {} answer purge {} ledger) = 2 := by
    decide +kernel
  obtain ⟨raises, leaves, moves, closes⟩ := failing_calls {}
  have made := Nat.le_of_eq counted.symm
  refine ⟨distinct, steady, counted, ?_, ?_, ?_, ?_, ?_⟩
  · exact raises Ledger answer purge {} ledger .delete 2 fault steady (by decide) made
  · exact (leaves ledger purge {} .delete 2 fault steady (by decide) made).2 0 "n" rfl rfl distinct
  · exact (leaves ledger (.upload 0 "m" [122]) {} .upload 1 fault steady (by decide) (by decide +kernel)).1
      nofun
  · refine (moves Ledger answer 0 "n.fsl" "n.fsl.fsl" {} ledger answer_no_contract).1.mpr ?_
    decide
  · refine (closes Ledger answer 0 "m" (.closed fault) {} ledger fun c _ _ => ?_).trans ?_
    · cases c <;> rfl
    · rfl

end Ledger

end FossilVault
