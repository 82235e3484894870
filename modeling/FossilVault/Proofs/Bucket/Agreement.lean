import FossilVault.Proofs.Archive.Run
import FossilVault.Proofs.Bucket.Paced
/-
**A bucket agrees with a ledger.** A vault on a bucket and a vault on a ledger are the same machine
of stacks. The order that the bucket lists the older versions of a name in does not show in anything
but a purge, so it is at purges only that no marker may be of the second of a newer content. The
newest version is set apart by its flag and may be of any second.

* `Provider.Clear` — an operation whose purge meets no such marker;
* `Provider.fits_of_clear` — what a bucket lists at a purge is then the stack as it stands;
* `Provider.agrees_with_ledger` — a bucket agrees with a ledger at every step of a run.
-/

namespace FossilVault.Bucket.Provider

variable {ω : Type} {provider : Provider ω} {connection : Connection} {world : ω}

/-- An operation by a worker of the pool; if it purges a name, no marker of the name is of the
second of a newer content, the newest version left aside. -/
def Clear (provider : Provider ω) (pool : Pool) (operation : Operation) (state : Connection × ω) :
    Prop :=
  (0 ≤ operation.worker ∧ operation.worker < pool.size) ∧
    ∀ worker name, operation = .delete worker (Fossil.fossilOf name) →
      Stored.Untied ((provider.names state.2).history name)

theorem purge_of_change {operation : Operation} {name : String}
    (purges : operation.change = some (name, .purge)) :
    ∃ worker, operation = .delete worker (Fossil.fossilOf name) := by
  cases operation with
  | delete worker path =>
    rcases Bool.eq_false_or_eq_true (Fossil.isFossil path) with fossil | bare
    · obtain ⟨purged, rfl⟩ := Fossil.isFossil_iff.mp fossil
      rw [Operation.change_purge, Option.some.injEq, Prod.mk.injEq] at purges
      exact ⟨worker, by rw [purges.1]⟩
    · rw [Operation.change_pop worker bare] at purges
      cases purges
  | move worker source target =>
    simp only [Operation.change] at purges
    split at purges
    · cases purges
    · split at purges <;> cases purges
  | upload | download | inspect | list | makeDirectory => cases purges

/-- **What a bucket lists at a clear purge is the stack as it stands.** -/
theorem fits_of_clear (lawful : provider.Lawful) (chosen : connection.bucket = some provider.bucket)
    (vault : Vault) {operations : List Operation} {session : Session} {state : Connection × ω}
    (ready : (provider.archive connection).sound state)
    (clear : vault.Throughout (Connection.remote provider.handler) (provider.Clear connection.pool)
      operations (session, state)) :
    vault.Throughout (Connection.remote provider.handler) (provider.archive connection).Fits operations
      (session, state) := by
  induction operations generalizing session state with
  | nil => trivial
  | cons operation rest ih =>
    obtain ⟨⟨served, untied⟩, later⟩ := clear
    have fits : (provider.archive connection).Fits operation state := by
      refine ⟨served, ?_⟩
      intro name purges
      obtain ⟨worker, purge⟩ := purge_of_change purges
      exact Stored.relist_untied (ready.2.2 name).descending (untied worker name purge)
    have ready' := ((archive_lawful lawful chosen).step_next ready vault fits session).1
    exact ⟨fits, ih ready' later⟩

/-- A run without purges is clear, whatever the seconds. -/
theorem clear_of_unpurged {h : Handler Remote.interface (Connection × ω)} {pool : Pool} (vault : Vault)
    {operations : List Operation}
    (served : ∀ operation ∈ operations, 0 ≤ operation.worker ∧ operation.worker < pool.size)
    (unpurged : ∀ operation ∈ operations, ∀ worker name,
      operation ≠ .delete worker (Fossil.fossilOf name)) (state : Session × Connection × ω) :
    vault.Throughout h (provider.Clear pool) operations state := by
  induction operations generalizing state with
  | nil => trivial
  | cons operation rest ih =>
    refine ⟨⟨served _ (.head _), ?_⟩, ?_⟩
    · intro worker name purge
      exact absurd purge (unpurged _ (.head _) worker name)
    · apply ih
      · intro later among
        exact served later (.tail _ among)
      · intro later among
        exact unpurged later (.tail _ among)

/-- **A bucket agrees with a ledger at every step of a run**: on the stacks of all names, on the end
of the operation unless its destination refuses something, and on what was downloaded. A download
that fails, fails for the service. -/
theorem agrees_with_ledger (lawful : provider.Lawful) (chosen : connection.bucket = some provider.bucket)
    (sound : provider.sound world) (void : provider.names world = .empty) (vault vault' : Vault)
    {session session' : Session} (steady : session.desk.Steady) (steady' : session'.desk.Steady)
    {operations : List Operation}
    (clear : vault.Throughout (Connection.remote provider.handler) (provider.Clear connection.pool) operations
      (session, (connection, world))) :
    ∀ before operation rest, operations = before ++ operation :: rest →
      let bucket := vault.step (Connection.remote provider.handler)
        (vault.after (Connection.remote provider.handler) before (session, (connection, world))) operation
      let ledger := vault'.step Ledger.answer (vault'.after Ledger.answer before (session', {})) operation
      (provider.names bucket.2.2.2).contents Stored.version = ledger.2.2.names.contents id ∧
      (operation.Accepting → bucket.1.mapError Fault.kind = ledger.1.mapError Fault.kind) ∧
      ∀ worker path destination, operation = .download worker path destination → destination.Open →
        bucket.2.1.sink.data = ledger.2.1.sink.data ∧
        ∀ fault, bucket.1 = .error fault ∨ ledger.1 = .error fault → fault.kind = .service := by
  have ready : (provider.archive connection).sound (connection, world) := by
    refine ⟨rfl, sound, ?_⟩
    intro name
    rw [void]
    exact .nil _
  have start : (provider.archive connection).stacked (connection, world) =
      Ledger.archive.stacked {} := by
    show (provider.names world).contents Stored.version = Catalog.contents id .empty
    rw [void]
    rfl
  have bucket := fits_of_clear lawful chosen vault ready clear
  have ledger : vault'.Throughout Ledger.archive.handler Ledger.archive.Fits operations
      (session', {}) := by
    apply Vault.Throughout.of_always
    intro operation world
    exact ⟨trivial, fun _ _ => rfl⟩
  exact (archive_lawful lawful chosen).agree Ledger.archive_lawful vault vault' ready
    Ledger.sound_empty start steady steady' bucket ledger

/-- A name is stored, hidden, stored again and purged, all within one second; then it is fetched. -/
theorem agrees_within_second :
    let provider := Paced.provider "bkt"
    let connection : Connection := ⟨⟨1, [0]⟩, some "bkt"⟩
    let world : Paced := ⟨{}, []⟩
    let front : List Operation := [.upload 0 "n" [120], .move 0 "n" "n.fsl", .upload 0 "n" [121]]
    let before := front ++ [.delete 0 "n.fsl"]
    let fetch : Operation := .download 0 "n" {}
    let bucket := Vault.step {} (Connection.remote provider.handler)
      (Vault.after {} (Connection.remote provider.handler) before ({}, (connection, world))) fetch
    let ledger := Vault.step {} Ledger.answer (Vault.after {} Ledger.answer before ({}, {})) fetch
    Vault.Throughout {} (Connection.remote provider.handler) (provider.Clear connection.pool)
      (front ++ [.delete 0 "n.fsl", fetch]) ({}, (connection, world)) ∧
    (provider.names bucket.2.2.2).contents Stored.version = ledger.2.2.names.contents id ∧
    bucket.1.mapError Fault.kind = ledger.1.mapError Fault.kind ∧
    bucket.2.1.sink.data = ledger.2.1.sink.data := by
  intro provider connection world front before fetch
  have stack : (provider.names (Vault.after {} (Connection.remote provider.handler) front
      ({}, (connection, world))).2.2).history "n" =
        [⟨"v3", 1700000000, some [121]⟩, ⟨"v2", 1700000000, none⟩, ⟨"v1", 1700000000, some [120]⟩] := by
    decide +kernel
  have untied : ∀ worker name, Operation.delete 0 "n.fsl" = .delete worker (Fossil.fossilOf name) →
      Stored.Untied ((provider.names (Vault.after {} (Connection.remote provider.handler) front
        ({}, (connection, world))).2.2).history name) := by
    intro worker name purge
    have same := congrArg Fossil.parse (Operation.delete.inj purge).2
    rw [Fossil.parse_fossilOf, show Fossil.parse "n.fsl" = ⟨"n", true⟩ from rfl] at same
    cases same
    rw [stack, Stored.Untied]
    decide
  have clear : Vault.Throughout {} (Connection.remote provider.handler) (provider.Clear connection.pool)
      (front ++ [.delete 0 "n.fsl", fetch]) ({}, (connection, world)) := by
    refine Vault.Throughout.append.mpr ⟨?_, ⟨⟨by decide, untied⟩, ?_⟩⟩
    · exact clear_of_unpurged {} (by decide) (by simp [front]) _
    · exact clear_of_unpurged {} (by decide) (by simp [fetch]) _
  have lawful : provider.Lawful := Paced.provider_lawful "bkt"
  have chosen : connection.bucket = some provider.bucket := rfl
  have sound : provider.sound world := Paced.sound_start (by decide)
  have void : provider.names world = .empty := rfl
  have steady : (Session.desk {}).Steady := fun _ among => nomatch among
  have isOpen : Sink.Open {} := fun _ _ => rfl
  obtain ⟨stacked, verdict, received⟩ := agrees_with_ledger lawful chosen sound void {} {} steady
    steady clear before fetch [] rfl
  exact ⟨clear, stacked, verdict isOpen, (received 0 "n" {} rfl isOpen).1⟩

end FossilVault.Bucket.Provider
