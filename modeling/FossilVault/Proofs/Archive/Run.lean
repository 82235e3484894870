import FossilVault.Proofs.Archive.Effect
import FossilVault.Proofs.Archive.Transfer
/-
**Runs on an archive.** A machine that knows stacks of contents and a clock, and no identifiers,
says how every operation ends and what it leaves. A vault on a lawful archive does what the machine
does, step by step, so two vaults on two archives that start with the same stacks cannot be told
apart.

* `Stacks.next`, `Stacks.ending` — one step of the machine;
* `Archive.Lawful.writes_step` — every operation makes the writes of its change, however it ends;
* `Archive.Lawful.step_next`, `Archive.Lawful.step_ending` — an operation leaves the stacks that the
  machine leaves, and ends as the machine does;
* `Archive.Lawful.after_next` — a run leaves the stacks that the machine leaves.
-/

namespace FossilVault

variable {α ω : Type}

/-! ### The machine -/

/-- A download goes to a destination that refuses nothing. -/
def Operation.Accepting : Operation → Prop
  | .download _ _ destination => destination.Open
  | _ => True

/-- The end of a transfer, whose time has to be told first. -/
def Desk.told (verdict : Except Kind Answer) (desk : Desk) : Except Kind Answer :=
  ((desk.reading.elapsed desk.later.reading).mapError Fault.kind).bind fun _ => verdict

namespace Stacks

/-- The stacks after an operation. -/
def next (operation : Operation) (stacked : Stacks) : Stacks :=
  match operation.change with
  | some (name, change) => stacked.turn id id name change
  | none => stacked

/-- How an operation ends, a fault by its family only, and the desk that it leaves. -/
def ending (desk : Desk) (stacked : Stacks) : Operation → Except Kind Answer × Desk
  | .upload .. => (desk.told (.ok .done), desk.later.later)
  | .download _ path destination =>
    match held path stacked with
    | some content => (desk.told (.ok .done), desk.later.later.receiving (destination.data ++ content))
    | none => (desk.told (.error .service), desk.later.later.receiving destination.data)
  | .move worker source target =>
    (if (Operation.move worker source target).change.isSome then .ok .done else .error .contract, desk)
  | .delete .. | .makeDirectory .. => (.ok .done, desk)
  | .inspect _ path => (.ok (.info (info path stacked)), desk)
  | .list _ directory => (.ok (.listing (listing directory stacked)), desk)

end Stacks

/-! ### Endings by a clock that reads doubles -/

theorem Desk.Steady.told {desk : Desk} (steady : desk.Steady) (verdict : Except Kind Answer) :
    desk.told verdict = verdict := by
  have fraction {other : Desk} (steady : other.Steady) :
      ∃ seconds, other.reading = .fraction seconds := by
    unfold Desk.reading
    cases clock : other.clock with
    | nil => exact ⟨0, rfl⟩
    | cons first rest => exact steady first (clock ▸ .head _)
  obtain ⟨start, started⟩ := fraction steady
  obtain ⟨finish, finished⟩ := fraction steady.later
  rw [Desk.told, started, finished]
  rfl

namespace Stacks

theorem steady_ending {desk : Desk} (steady : desk.Steady) (stacked : Stacks) (operation : Operation) :
    (stacked.ending desk operation).2.Steady := by
  cases operation with
  | upload worker path content => exact steady.later.later
  | download worker path destination =>
    simp only [ending]
    split <;> exact steady.later.later
  | move | delete | inspect | list | makeDirectory => exact steady

/-- How an operation ends does not depend on the clock, as long as it reads doubles. -/
theorem ending_steady {desk desk' : Desk} (steady : desk.Steady) (steady' : desk'.Steady)
    (stacked : Stacks) (operation : Operation) :
    (stacked.ending desk operation).1 = (stacked.ending desk' operation).1 := by
  cases operation with
  | upload worker path content => exact (steady.told _).trans (steady'.told _).symm
  | download worker path destination =>
    simp only [ending]
    split <;> exact (steady.told _).trans (steady'.told _).symm
  | move | delete | inspect | list | makeDirectory => rfl

/-- What a destination receives does not depend on the clock. -/
theorem received_ending (desk desk' : Desk) (stacked : Stacks) (worker : Int) (path : String)
    (destination : Sink) :
    (stacked.ending desk (.download worker path destination)).2.received =
      (stacked.ending desk' (.download worker path destination)).2.received := by
  simp only [ending]
  split <;> rfl

/-- **A download fails for the service only.** -/
theorem service_of_failed {desk : Desk} (steady : desk.Steady) {stacked : Stacks} {worker : Int}
    {path : String} {destination : Sink} {kind : Kind}
    (failed : (stacked.ending desk (.download worker path destination)).1 = .error kind) :
    kind = .service := by
  simp only [ending] at failed
  split at failed
  · simp [steady.told] at failed
  · simpa [steady.told, eq_comm] using failed

end Stacks

namespace Archive

variable {archive : Archive α ω}

/-- An operation changes the stacks here as the machine does: its worker is served, and a name that
it purges is listed as it is stacked. -/
def Fits (archive : Archive α ω) (operation : Operation) (world : ω) : Prop :=
  archive.serves operation.worker ∧ ∀ name, operation.change = some (name, .purge) →
    archive.order ((archive.names world).history name) = (archive.names world).history name

end Archive

/-- A condition holds at every step of a run. -/
def Vault.Throughout (vault : Vault) (h : Handler Remote.interface ω) (condition : Operation → ω → Prop) :
    List Operation → Session × ω → Prop
  | [], _ => True
  | operation :: rest, state =>
    condition operation state.2 ∧ vault.Throughout h condition rest (vault.step h state operation).2

namespace Vault.Throughout

variable {vault : Vault} {h : Handler Remote.interface ω} {condition : Operation → ω → Prop}

theorem of_always (always : ∀ operation world, condition operation world) (operations : List Operation)
    (state : Session × ω) : vault.Throughout h condition operations state := by
  induction operations generalizing state with
  | nil => trivial
  | cons operation rest ih => exact ⟨always operation state.2, ih _⟩

/-- What holds at every step of a run holds at those of its parts. -/
theorem append {first second : List Operation} {state : Session × ω} :
    vault.Throughout h condition (first ++ second) state ↔
      vault.Throughout h condition first state ∧
        vault.Throughout h condition second (vault.after h first state) := by
  induction first generalizing state with
  | nil =>
    constructor
    · intro whole
      exact ⟨trivial, whole⟩
    · exact And.right
  | cons operation rest ih =>
    show _ ∧ _ ↔ (_ ∧ _) ∧ _
    rw [List.append_eq, ih, and_assoc]
    rfl

end Vault.Throughout

namespace Archive.Lawful

variable {archive : Archive α ω} (lawful : archive.Lawful) {desk : Desk} {world : ω}
  (sound : archive.sound world)

include lawful sound

/-! ### One step -/

theorem runs_perform (vault : Vault) {operation : Operation} (served : archive.serves operation.worker)
    (accepting : operation.Accepting) :
    ∃ outcome : Except Fault Answer,
      outcome.mapError Fault.kind = (Stacks.ending desk (archive.stacked world) operation).1 ∧
      archive.Runs (vault.perform operation) desk world outcome
        (Stacks.ending desk (archive.stacked world) operation).2
        (operation.writes archive.version archive.order (archive.names world)) := by
  have verdict (outcome : Except Fault Answer) :
      ((desk.reading.elapsed desk.later.reading).bind fun _ => outcome).mapError Fault.kind =
        desk.told (outcome.mapError Fault.kind) := by
    unfold Desk.told
    cases desk.reading.elapsed desk.later.reading <;> rfl
  have told := lawful.runs_compositional desk
  cases operation with
  | upload worker path content =>
    exact ⟨_, verdict _, lawful.runs_upload sound served vault path content⟩
  | download worker path destination =>
    cases held : Stacks.held path (archive.stacked world) with
    | some content =>
      simp only [Stacks.ending, held]
      exact ⟨_, verdict _, lawful.runs_download sound vault served held accepting⟩
    | none =>
      simp only [Stacks.ending, held]
      obtain ⟨fault, service, ran⟩ := lawful.runs_missing sound vault served held destination
      refine ⟨_, (verdict _).trans ?_, ran⟩
      rw [← service]
      rfl
  | move worker source target =>
    change archive.serves worker at served
    refine ⟨_, ?_, (told.ends_move lawful sound served source target).followed fun _ => Answer.done⟩
    simp only [Stacks.ending]
    split <;> rfl
  | delete worker path =>
    change archive.serves worker at served
    exact ⟨_, rfl, (told.ends_delete lawful sound served path).followed fun _ => Answer.done⟩
  | inspect worker path =>
    exact ⟨_, rfl, (told.ends_inspect lawful sound served path).followed Answer.info⟩
  | list worker directory =>
    exact ⟨_, rfl, (told.ends_listing lawful sound served directory).followed Answer.listing⟩
  | makeDirectory worker directory => exact ⟨_, rfl, lawful.runs_pure sound Answer.done⟩

/-- **Every operation makes the writes of its change**, however it ends. -/
theorem writes_step (vault : Vault) {operation : Operation} (served : archive.serves operation.worker)
    (session : Session) :
    let world' := (vault.step archive.handler (session, world) operation).2.2
    archive.sound world' ∧
      archive.reaches (operation.writes archive.version archive.order (archive.names world)) world
        world' := by
  by_cases accepting : operation.Accepting
  · obtain ⟨outcome, _, ran⟩ := lawful.runs_perform sound vault served accepting
    obtain ⟨session', world', run, _, sound', reached⟩ := ran session rfl
    show archive.sound ((vault.perform operation).run archive.handler session world).2.2 ∧ _
    rw [Vault.step, run]
    exact ⟨sound', reached⟩
  · cases operation with
    | download worker path destination =>
      exact lawful.fetches sound vault served path destination session
    | _ => exact absurd trivial accepting

omit sound in
theorem stacked_next {operation : Operation} (sound : archive.sound world) {world' : ω}
    (reached : archive.reaches (operation.writes archive.version archive.order (archive.names world))
      world world')
    (straight : ∀ name, operation.change = some (name, .purge) →
      archive.order ((archive.names world).history name) = (archive.names world).history name) :
    archive.stacked world' = (archive.stacked world).next operation := by
  have wrote := lawful.wrote reached
  unfold Operation.writes at wrote
  unfold Stacks.next
  cases made : operation.change with
  | none =>
    rw [made] at wrote
    exact congrArg (Catalog.contents archive.version) wrote.idle
  | some turned =>
    obtain ⟨name, change⟩ := turned
    rw [made] at wrote
    apply wrote.turned (lawful.distinct sound name)
    intro purge
    rw [purge] at made
    exact straight name made

/-- **An operation leaves the stacks that the machine leaves.** -/
theorem step_next (vault : Vault) {operation : Operation} (fits : archive.Fits operation world)
    (session : Session) :
    let world' := (vault.step archive.handler (session, world) operation).2.2
    archive.sound world' ∧ archive.stacked world' = (archive.stacked world).next operation := by
  obtain ⟨served, straight⟩ := fits
  obtain ⟨sound', reached⟩ := lawful.writes_step sound vault served session
  exact ⟨sound', lawful.stacked_next sound reached straight⟩

/-- **An operation ends as the machine does**, if its destination refuses nothing. -/
theorem step_ending (vault : Vault) {operation : Operation} (served : archive.serves operation.worker)
    (accepting : operation.Accepting) (session : Session) :
    let ended := vault.step archive.handler (session, world) operation
    ended.1.mapError Fault.kind = (Stacks.ending session.desk (archive.stacked world) operation).1 ∧
      ended.2.1.desk = (Stacks.ending session.desk (archive.stacked world) operation).2 := by
  obtain ⟨outcome, verdict, ran⟩ := lawful.runs_perform sound vault served accepting
  obtain ⟨session', world', run, at_desk, _⟩ := ran session rfl
  have stepped : vault.step archive.handler (session, world) operation =
      (outcome, session', world') := run
  rw [stepped]
  exact ⟨verdict, at_desk⟩

/-- A clock that reads doubles goes on to do so. -/
theorem step_steady (vault : Vault) {operation : Operation} (served : archive.serves operation.worker)
    {session : Session} (steady : session.desk.Steady) :
    (vault.step archive.handler (session, world) operation).2.1.desk.Steady := by
  by_cases accepting : operation.Accepting
  · rw [(lawful.step_ending sound vault served accepting session).2]
    exact Stacks.steady_ending steady (archive.stacked world) operation
  · cases operation with
    | download worker path destination =>
      exact lawful.steady_fetches sound vault served path destination steady
    | _ => exact absurd trivial accepting

/-! ### Runs -/

/-- **A run leaves the stacks that the machine leaves**, and a clock that reads doubles as such. -/
theorem after_next (vault : Vault) (operations : List Operation) {session : Session}
    (steady : session.desk.Steady)
    (fits : vault.Throughout archive.handler archive.Fits operations (session, world)) :
    let state := vault.after archive.handler operations (session, world)
    archive.sound state.2 ∧ state.1.desk.Steady ∧
      archive.stacked state.2 = operations.foldl (fun stacked operation => stacked.next operation)
        (archive.stacked world) := by
  induction operations generalizing session world with
  | nil => exact ⟨sound, steady, rfl⟩
  | cons operation rest ih =>
    obtain ⟨first, later⟩ := fits
    obtain ⟨sound', stacked⟩ := lawful.step_next sound vault first session
    have steady' := lawful.step_steady sound vault first.1 steady
    obtain ⟨sound'', steady'', after⟩ := ih sound' steady' later
    refine ⟨sound'', steady'', ?_⟩
    rw [List.foldl_cons, ← stacked]
    exact after

end Archive.Lawful

/-! ### Two archives -/

namespace Archive.Lawful

variable {β ω' : Type} {archive : Archive α ω} {archive' : Archive β ω'} (lawful : archive.Lawful)
  (lawful' : archive'.Lawful) (vault vault' : Vault)

include lawful lawful'

/-- **One step on two archives with the same stacks** leaves the same stacks and ends alike. -/
theorem agree_step {world : ω} {world' : ω'} (sound : archive.sound world)
    (sound' : archive'.sound world')
    (same : archive.stacked world = archive'.stacked world') {session session' : Session}
    (steady : session.desk.Steady) (steady' : session'.desk.Steady) {operation : Operation}
    (fits : archive.Fits operation world) (fits' : archive'.Fits operation world') :
    let first := vault.step archive.handler (session, world) operation
    let second := vault'.step archive'.handler (session', world') operation
    archive.stacked first.2.2 = archive'.stacked second.2.2 ∧
    (operation.Accepting → first.1.mapError Fault.kind = second.1.mapError Fault.kind) ∧
    ∀ worker path destination, operation = .download worker path destination → destination.Open →
      first.2.1.sink.data = second.2.1.sink.data ∧
      ∀ fault, first.1 = .error fault ∨ second.1 = .error fault → fault.kind = .service := by
  have next := (lawful.step_next sound vault fits session).2
  have next' := (lawful'.step_next sound' vault' fits' session').2
  refine ⟨?_, ?_, ?_⟩
  · rw [next, next', same]
  · intro accepting
    obtain ⟨verdict, _⟩ := lawful.step_ending sound vault fits.1 accepting session
    obtain ⟨verdict', _⟩ := lawful'.step_ending sound' vault' fits'.1 accepting session'
    rw [← same] at verdict'
    exact verdict.trans ((Stacks.ending_steady steady steady' _ operation).trans verdict'.symm)
  · rintro worker path destination rfl isOpen
    have accepting : (Operation.download worker path destination).Accepting := isOpen
    obtain ⟨verdict, desk⟩ := lawful.step_ending sound vault fits.1 accepting session
    obtain ⟨verdict', desk'⟩ := lawful'.step_ending sound' vault' fits'.1 accepting session'
    constructor
    · rw [← same] at desk'
      have received := Stacks.received_ending session.desk session'.desk (archive.stacked world)
        worker path destination
      rw [← desk, ← desk'] at received
      exact received
    · intro fault failed
      rcases failed with failed | failed
      · rw [failed] at verdict
        exact Stacks.service_of_failed steady verdict.symm
      · rw [failed] at verdict'
        exact Stacks.service_of_failed steady' verdict'.symm

/-- **Two archives that start with the same stacks cannot be told apart**: at every step of a run
they have the same stacks, an operation ends alike unless its destination refuses something, and
what is downloaded is the same. -/
theorem agree {world : ω} {world' : ω'} (sound : archive.sound world) (sound' : archive'.sound world')
    (same : archive.stacked world = archive'.stacked world') {session session' : Session}
    (steady : session.desk.Steady) (steady' : session'.desk.Steady) {operations : List Operation}
    (fits : vault.Throughout archive.handler archive.Fits operations (session, world))
    (fits' : vault'.Throughout archive'.handler archive'.Fits operations (session', world')) :
    ∀ before operation rest, operations = before ++ operation :: rest →
      let first := vault.step archive.handler (vault.after archive.handler before (session, world))
        operation
      let second := vault'.step archive'.handler (vault'.after archive'.handler before (session', world'))
        operation
      archive.stacked first.2.2 = archive'.stacked second.2.2 ∧
      (operation.Accepting → first.1.mapError Fault.kind = second.1.mapError Fault.kind) ∧
      ∀ worker path destination, operation = .download worker path destination → destination.Open →
        first.2.1.sink.data = second.2.1.sink.data ∧
        ∀ fault, first.1 = .error fault ∨ second.1 = .error fault → fault.kind = .service := by
  rintro before operation rest rfl
  obtain ⟨past, now, _⟩ := Vault.Throughout.append.mp fits
  obtain ⟨past', now', _⟩ := Vault.Throughout.append.mp fits'
  obtain ⟨sound, steady, stacked⟩ := lawful.after_next sound vault before steady past
  obtain ⟨sound', steady', stacked'⟩ := lawful'.after_next sound' vault' before steady' past'
  rw [← same, ← stacked] at stacked'
  exact lawful.agree_step lawful' vault vault' sound sound' stacked'.symm steady steady' now now'

end Archive.Lawful

end FossilVault
