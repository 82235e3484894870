import FossilVault.Proofs.Archive.Operation
/-
**Transfers on an archive.** A transfer is a single call between two looks at the clock. An upload
writes its content whole, and a download hands on the newest content whole, to a destination that
refuses nothing; what a destination refuses changes nothing on the remote.

* `Vault.run_receive` — a stream that keeps giving is received whole;
* `Archive.Lawful.runs_upload`, `Archive.Lawful.runs_download` — how a transfer ends and what it
  leaves;
* `Archive.Lawful.fetches` — a download writes nothing, whatever its destination refuses.
-/

namespace FossilVault

variable {α ω β γ : Type}

namespace Program

/-- The time of a program that is not interrupted is told, or it ends so that no time can be told. -/
theorem timedOutcome_map {outcome : Except Fault β} (calm : isInterrupted outcome = false)
    (start finish : Instant) (f : β → γ) :
    (timedOutcome start finish outcome).map f =
      (start.elapsed finish).bind fun _ => outcome.map f := by
  rw [timedOutcome, calm]
  cases start.elapsed finish <;> rfl

theorem run_followed (h : Handler Remote.interface ω) (program : Program Remote.interface β)
    (f : β → γ) (session : Session) (world : ω) :
    ((program >>= fun value => pure (f value)).run h session world).2 =
      (program.run h session world).2 := by
  rw [run_bind]
  generalize program.run h session world = ended
  obtain ⟨outcome, session', world'⟩ := ended
  cases outcome <;> rfl

end Program

namespace Vault

/-- **A stream that keeps giving is received whole**, and without a call. -/
theorem run_receive (vault : Vault) (h : Handler Remote.interface ω) (worker : Int) {source : Source}
    (steady : source.Steady) {session : Session} (isOpen : session.sink.Open) (world : ω) :
    ∃ session', (vault.receive worker source).run h session world = (.ok (), session', world) ∧
      session'.desk = ⟨session.clock, session.sink.data ++ source.content⟩ := by
  obtain ⟨count, rest, last, copied, clock, data⟩ :=
    copy_steady (share vault.downloadLimit vault.workers) (downloadChannel worker) source
      { session with opened := session.opened + 1 } steady isOpen
  refine ⟨{ last with released := last.released + 1 }, ?_, ?_⟩
  · simp only [receive, Program.run_bind, Program.run_modify, Program.run_attempt, Program.run_within,
      copied, Program.run_ofExcept]
    rfl
  · rw [Session.desk, clock, data]

/-- Receiving makes no call. -/
theorem run_receive_world (vault : Vault) (h : Handler Remote.interface ω) (worker : Int)
    (source : Source) (session : Session) (world : ω) :
    ((vault.receive worker source).run h session world).2.2 = world := by
  simp only [receive, Program.run_bind, Program.run_modify, Program.run_attempt, Program.run_within,
    Program.run_ofExcept]

/-- Receiving does not look at the clock. -/
theorem run_receive_clock (vault : Vault) (h : Handler Remote.interface ω) (worker : Int)
    (source : Source) (session : Session) (world : ω) :
    ((vault.receive worker source).run h session world).2.1.clock = session.clock := by
  simp only [receive, Program.run_bind, Program.run_modify, Program.run_attempt, Program.run_within,
    Program.run_ofExcept]
  exact (copy_copied _ _ source _).clock

/-- A download leaves the remote as the call and the stream behind it do. -/
theorem world_download (vault : Vault) (h : Handler Remote.interface ω) (worker : Int) (path : String)
    (destination : Sink) (session : Session) (world : ω) :
    (vault.step h (session, world) (.download worker path destination)).2.2 =
      ((Remote.ask (.download worker path) >>= fun opened =>
        vault.receive worker (Remote.Opened.source opened)).run h
          { session with sink := destination }.readClock.2 world).2.2 := by
  rw [step, perform, Program.run_bind, Program.run_modify]
  exact (congrArg Prod.snd (Program.run_followed _ _ _ _ world)).trans
    (Program.run_timed _ _ _ _ _ _ world).2

/-- An upload leaves the remote as its call does. -/
theorem world_upload (vault : Vault) (h : Handler Remote.interface ω) (worker : Int) (path : String)
    (content : Bytes) (session : Session) (world : ω) :
    (vault.step h (session, world) (.upload worker path content)).2.2 =
      ((Remote.ask (.upload worker path content (share vault.uploadLimit vault.workers))).run h
        session.readClock.2 world).2.2 := by
  rw [step, perform]
  exact (congrArg Prod.snd (Program.run_followed _ _ _ _ world)).trans
    (Program.run_timed _ _ _ _ _ _ world).2

end Vault

/-! ### Clocks that read doubles -/

namespace Desk

/-- The clock reads doubles. -/
def Steady (desk : Desk) : Prop :=
  ∀ reading ∈ desk.clock, ∃ seconds, reading = .fraction seconds

theorem Steady.of_clock {desk desk' : Desk} (steady : desk.Steady) (same : desk'.clock = desk.clock) :
    desk'.Steady := by
  intro reading among
  rw [same] at among
  exact steady reading among

theorem Steady.later {desk : Desk} (steady : desk.Steady) : desk.later.Steady := by
  intro reading among
  unfold Desk.later at among
  split at among
  · rename_i first second rest clock
    exact steady reading (clock ▸ .tail _ among)
  · exact steady reading among

end Desk

theorem steady_followed (h : Handler Remote.interface ω) {program : Program Remote.interface β}
    (f : β → γ) {session : Session} {world : ω}
    (steady : (program.run h session world).2.1.desk.Steady) :
    ((program >>= fun value => pure (f value)).run h session world).2.1.desk.Steady := by
  rw [Program.run_followed]
  exact steady

/-- A timed program leaves a clock that reads doubles if its body does. -/
theorem steady_timed (h : Handler Remote.interface ω) (name : String) (worker : Int) (path : String)
    {body : Program Remote.interface β} {session : Session} {world : ω}
    (steady : (body.run h session.readClock.2 world).2.1.desk.Steady) :
    ((Program.timed name worker path body).run h session world).2.1.desk.Steady := by
  have finished := steady.later
  rw [← readClock_desk] at finished
  rw [Program.timed, Program.clock]
  simp only [Program.run_bind, Program.run_within, Program.run_attempt]
  split
  · rw [Program.run_ofExcept]
    exact steady
  · simp only [Program.run_bind, Program.run_within, Program.run_ofExcept]
    cases session.readClock.1.elapsed (body.run h session.readClock.2 world).2.1.readClock.1 with
    | error fault => exact finished
    | ok elapsed =>
      simp only [Program.run_note]
      exact finished

namespace Archive

variable {archive : Archive α ω} {desk desk' : Desk} {world : ω} {writes : List Write}

theorem Runs.followed {body : Program Remote.interface β} {outcome : Except Fault β}
    (ran : archive.Runs body desk world outcome desk' writes) (f : β → γ) :
    archive.Runs (body >>= fun value => pure (f value)) desk world (outcome.map f) desk' writes := by
  intro session at_desk
  obtain ⟨last, world', run, rest⟩ := ran session at_desk
  refine ⟨last, world', ?_, rest⟩
  rw [Program.run_bind, run]
  cases outcome <;> rfl

/-- A download ends as its stream does, whatever session it starts from. -/
theorem runs_fetch (vault : Vault) {worker : Int} {path : String} {destination : Sink} {data : Bytes}
    {outcome : Except Fault Unit} (calm : isInterrupted outcome = false)
    (fetched : ∀ session : Session, session.sink = destination → ∃ session' world',
      (Remote.ask (.download worker path) >>= fun opened =>
        vault.receive worker (Remote.Opened.source opened)).run archive.handler session world =
          (outcome, session', world') ∧
      session'.desk = ⟨session.clock, data⟩ ∧ archive.sound world' ∧
        archive.reaches [] world world') :
    archive.Runs (vault.perform (.download worker path destination)) desk world
      ((desk.reading.elapsed desk.later.reading).bind fun _ => outcome.map fun _ => .done)
      (desk.later.later.receiving data) [] := by
  intro session at_desk
  subst at_desk
  let ready : Session := { session with sink := destination }
  obtain ⟨ended, world', ran, at_desk, sound', still⟩ :=
    fetched ready.readClock.2 (readClock_sink ready)
  obtain ⟨last, run, alike⟩ := run_timed_calm "download_file" worker path calm ran
  have at_ready : ready.desk = session.desk.receiving destination.data := rfl
  have at_start : ready.readClock.2.desk = session.desk.later.receiving destination.data := by
    rw [readClock_desk, at_ready, Desk.later_receiving]
  have at_end : ended.desk = session.desk.later.receiving data := by
    have clock : ready.readClock.2.clock = session.desk.later.clock := congrArg Desk.clock at_start
    rw [at_desk, clock]
    rfl
  refine ⟨last, world', ?_, ?_, sound', still⟩
  · have start : ready.readClock.1 = session.desk.reading := by
      rw [readClock_reading, at_ready, Desk.reading_receiving]
    have finish : ended.readClock.1 = session.desk.later.reading := by
      rw [readClock_reading, at_end, Desk.reading_receiving]
    rw [start, finish] at run
    rw [← Program.timedOutcome_map calm, Vault.perform, Program.run_bind, Program.run_modify]
    simp only [Program.run_bind]
    rw [show { session with sink := destination } = ready from rfl, Vault.download, run]
    cases Program.timedOutcome session.desk.reading session.desk.later.reading outcome <;> rfl
  · rw [alike.desk, readClock_desk, at_end, Desk.later_receiving]

namespace Lawful

variable (lawful : archive.Lawful) (sound : archive.sound world)

include lawful sound

theorem runs_upload {worker : Int} (served : archive.serves worker) (vault : Vault) (path : String)
    (content : Bytes) :
    archive.Runs (vault.perform (.upload worker path content)) desk world
      ((desk.reading.elapsed desk.later.reading).bind fun _ => .ok .done) desk.later.later
      [.push path (some content)] := by
  have sent : archive.Runs (vault.upload worker path content) desk world
      (Program.timedOutcome desk.reading desk.later.reading (.ok ())) desk.later.later
      [.push path (some content)] :=
    (lawful.upload sound served path content _).runs.timed "upload_file" worker path rfl
  have ended := sent.followed fun _ => Answer.done
  rwa [Program.timedOutcome_map rfl] at ended

/-- **A download hands on the newest content whole** to a destination that refuses nothing. -/
theorem runs_download (vault : Vault) {worker : Int} (served : archive.serves worker) {path : String}
    {content : Bytes} (held : Stacks.held path (archive.stacked world) = some content)
    {destination : Sink} (isOpen : destination.Open) :
    archive.Runs (vault.perform (.download worker path destination)) desk world
      ((desk.reading.elapsed desk.later.reading).bind fun _ => .ok .done)
      (desk.later.later.receiving (destination.data ++ content)) [] := by
  have calm : isInterrupted (.ok () : Except Fault Unit) = false := rfl
  refine runs_fetch vault calm ?_
  intro session at_destination
  have opens := lawful.download sound served path
  rw [Opens, held] at opens
  obtain ⟨opened, whole, steady, answers⟩ := opens
  obtain ⟨ready, world', answered, alike, sound', still⟩ := answers session
  have sink : ready.sink = destination := alike.sink.trans at_destination
  obtain ⟨last, received, at_desk⟩ :=
    vault.run_receive archive.handler worker steady (sink ▸ isOpen : ready.sink.Open) world'
  refine ⟨last, world', ?_, ?_, sound', still⟩
  · rw [Program.run_bind, Remote.run_ask, answered]
    exact received
  · rw [at_desk, alike.clock, sink, whole]

/-- **A name without a content is refused by the service.** -/
theorem runs_missing (vault : Vault) {worker : Int} (served : archive.serves worker) {path : String}
    (missing : Stacks.held path (archive.stacked world) = none) (destination : Sink) :
    ∃ fault : Fault, fault.kind = .service ∧
      archive.Runs (vault.perform (.download worker path destination)) desk world
        ((desk.reading.elapsed desk.later.reading).bind fun _ => .error fault)
        (desk.later.later.receiving destination.data) [] := by
  have opens := lawful.download sound served path
  rw [Opens, missing] at opens
  obtain ⟨fault, service, answers⟩ := opens
  have calm : isInterrupted (.error fault : Except Fault Unit) = false := by
    rw [isInterrupted, Fault.isInterrupt, service]
    rfl
  refine ⟨fault, service, runs_fetch vault calm ?_⟩
  intro session at_destination
  obtain ⟨ready, world', answered, alike, sound', still⟩ := answers session
  refine ⟨ready, world', ?_, ?_, sound', still⟩
  · rw [Program.run_bind, Remote.run_ask, answered]
  · rw [alike.desk, Session.desk, at_destination]

/-- **A download writes nothing**, whatever its destination refuses. -/
theorem fetches (vault : Vault) {worker : Int} (served : archive.serves worker) (path : String)
    (destination : Sink) (session : Session) :
    let world' := (vault.step archive.handler (session, world) (.download worker path destination)).2.2
    archive.sound world' ∧ archive.reaches [] world world' := by
  let ready : Session := { session with sink := destination }
  have opens := lawful.download sound served path
  unfold Opens at opens
  simp only [Vault.world_download]
  rw [Program.run_bind, Remote.run_ask]
  split at opens
  · obtain ⟨opened, _, _, answers⟩ := opens
    obtain ⟨session', world', answered, _, sound', still⟩ := answers ready.readClock.2
    rw [answered]
    simp only [Vault.run_receive_world]
    exact ⟨sound', still⟩
  · obtain ⟨fault, _, answers⟩ := opens
    obtain ⟨session', world', answered, _, sound', still⟩ := answers ready.readClock.2
    rw [answered]
    exact ⟨sound', still⟩

/-- A download leaves a clock that reads doubles as such, whatever its destination refuses. -/
theorem steady_fetches (vault : Vault) {worker : Int} (served : archive.serves worker) (path : String)
    (destination : Sink) {session : Session} (steady : session.desk.Steady) :
    (vault.step archive.handler (session, world)
      (.download worker path destination)).2.1.desk.Steady := by
  let ready : Session := { session with sink := destination }
  have start : ready.readClock.2.desk.Steady := by
    rw [readClock_desk]
    exact Desk.Steady.later (steady.of_clock rfl)
  rw [Vault.step, Vault.perform, Program.run_bind, Program.run_modify]
  apply steady_followed
  apply steady_timed
  have opens := lawful.download sound served path
  unfold Opens at opens
  rw [Program.run_bind, Remote.run_ask]
  split at opens
  · obtain ⟨opened, _, _, answers⟩ := opens
    obtain ⟨session', world', answered, alike, _⟩ := answers ready.readClock.2
    rw [answered]
    have clock := vault.run_receive_clock archive.handler worker opened.source session' world'
    exact start.of_clock (clock.trans alike.clock)
  · obtain ⟨fault, _, answers⟩ := opens
    obtain ⟨session', world', answered, alike, _⟩ := answers ready.readClock.2
    rw [answered]
    exact start.of_clock alike.clock

end Lawful

end Archive

end FossilVault
