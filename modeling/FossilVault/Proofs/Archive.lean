import FossilVault.Proofs.Transfer
import FossilVault.Proofs.View
import FossilVault.Transfer.Timed
/-
**Archives.** A remote as a vault sees it: a catalog of versions behind a handler. A call answers
from the catalog and writes at most one thing to it. What a listing cannot promise is the order of
the older versions of a name, only which one is the newest.

* `Catalog.Wrote` — what a series of writes makes of the versions;
* `Archive.Lawful` — what a vault relies on;
* `Archive.Runs` — how a program ends on an archive, what it leaves of the desk, and what it writes;
* `Archive.Compositional`, `Archive.Lawful.runs_compositional` — the writes of a sequence are those
  of its parts;
* `Archive.Runs.timed` — a timed program writes what its body writes;
* `Archive.Lawful.list_first` — a program may list, whatever the archive does meanwhile.
-/

namespace FossilVault

/-- What a call changes on a remote: it puts a version on top of a name, or takes away those of a
name that have an identifier. -/
inductive Write
  | push (name : String) (content : Option Bytes)
  | remove (name id : String)
  deriving DecidableEq

/-- What a series of writes makes of a catalog. -/
inductive Catalog.Wrote {α : Type} (version : α → Version) :
    Catalog α → List Write → Catalog α → Prop
  | none (catalog : Catalog α) : Wrote version catalog [] catalog
  | push {name : String} {content : Option Bytes} {stored : α} {rest : List Write}
      {catalog last : Catalog α} (holds : (version stored).content = content)
      (after : Wrote version (catalog.push name stored) rest last) :
      Wrote version catalog (.push name content :: rest) last
  | remove {name id : String} {rest : List Write} {catalog last : Catalog α}
      (after : Wrote version (catalog.keep name fun stored => (version stored).id != id) rest last) :
      Wrote version catalog (.remove name id :: rest) last

theorem Catalog.Wrote.idle {α : Type} {version : α → Version} {first second : Catalog α}
    (nothing : first.Wrote version [] second) : second = first := by
  cases nothing
  rfl

theorem Catalog.Wrote.trans {α : Type} {version : α → Version} {first second third : Catalog α}
    {writes writes' : List Write} (before : first.Wrote version writes second)
    (later : second.Wrote version writes' third) : first.Wrote version (writes ++ writes') third := by
  induction before with
  | none => exact later
  | push holds _ ih => exact .push holds (ih later)
  | remove _ ih => exact .remove (ih later)

/-! ### The desk -/

/-- The part of a session that the end of an operation depends on: the clock that is read, and what
the destination holds. -/
structure Desk where
  clock : List Instant
  received : Bytes

/-- The desk of a session. -/
def Session.desk (session : Session) : Desk :=
  ⟨session.clock, session.sink.data⟩

namespace Desk

/-- What the clock reads next. -/
def reading (desk : Desk) : Instant :=
  desk.clock.headD (.fraction 0)

/-- The desk after a look at the clock, whose last reading stays. -/
def later (desk : Desk) : Desk :=
  match desk.clock with
  | _ :: second :: rest => { desk with clock := second :: rest }
  | _ => desk

/-- The desk with another destination. -/
def receiving (data : Bytes) (desk : Desk) : Desk :=
  ⟨desk.clock, data⟩

@[simp] theorem reading_receiving (desk : Desk) (data : Bytes) :
    (desk.receiving data).reading = desk.reading := rfl

/-- A look at the clock does not depend on what was received. -/
@[simp] theorem later_receiving (desk : Desk) (data : Bytes) :
    (desk.receiving data).later = desk.later.receiving data := by
  obtain ⟨clock, received⟩ := desk
  match clock with
  | [] | [_] | _ :: _ :: _ => rfl

end Desk

theorem Remote.run_ask {ω : Type} (h : Handler Remote.interface ω) (c : Remote.Call)
    (session : Session) (world : ω) : (Remote.ask c).run h session world = h c session world :=
  Program.run_ask h c session world

theorem readClock_reading (session : Session) : session.readClock.1 = session.desk.reading := by
  unfold Session.readClock Desk.reading Session.desk
  split <;> rename_i same <;> rw [same] <;> rfl

theorem readClock_desk (session : Session) : session.readClock.2.desk = session.desk.later := by
  unfold Session.readClock Desk.later Session.desk
  split <;> rename_i same <;> simp [same]

theorem readClock_sink (session : Session) : session.readClock.2.sink = session.sink := by
  unfold Session.readClock
  split <;> rfl

theorem Session.Alike.desk {session session' : Session} (alike : session.Alike session') :
    session'.desk = session.desk := by
  rw [Session.desk, alike.clock, alike.sink]
  rfl

/-- A timed program that is not interrupted ends as its body does, once the time is told, and looks
at the clock before and after. -/
theorem run_timed_calm {ω β : Type} {h : Handler Remote.interface ω}
    {body : Program Remote.interface β} {outcome : Except Fault β} {session ended : Session}
    {world world' : ω} (name : String) (worker : Int) (path : String) (calm : isInterrupted outcome = false)
    (ran : body.run h session.readClock.2 world = (outcome, ended, world')) :
    ∃ last, (Program.timed name worker path body).run h session world =
        (Program.timedOutcome session.readClock.1 ended.readClock.1 outcome, last, world') ∧
      ended.readClock.2.Alike last := by
  obtain ⟨first, second⟩ := Program.run_timed h name worker path body session world
  rw [ran] at first second
  refine ⟨_, Prod.ext first (Prod.ext rfl second), ?_⟩
  rw [Program.timed, Program.clock]
  simp only [Program.run_bind, Program.run_within, Program.run_attempt, ran, calm, Bool.false_eq_true,
    if_false]
  cases session.readClock.1.elapsed ended.readClock.1 with
  | error fault => simpa using Session.Alike.refl _
  | ok elapsed =>
    simp only [Program.run_ofExcept, Program.run_note]
    exact .note _ _ _ _

/-! ### Archives -/

/-- A remote with the catalog of versions that it keeps. -/
structure Archive (α ω : Type) where
  handler : Handler Remote.interface ω
  /-- The versions of the names. -/
  names : ω → Catalog α
  /-- What is stored of a version. -/
  version : α → Version
  /-- The order in which the versions of a name are listed. -/
  order : List α → List α
  /-- The states that the remote can be in. -/
  sound : ω → Prop
  /-- The workers that a call may name. -/
  serves : Int → Prop
  /-- The states that a series of writes leads to. -/
  reaches : List Write → ω → ω → Prop

namespace Archive

variable {α ω β γ : Type}

/-- The contents of an archive. -/
def stacked (archive : Archive α ω) (world : ω) : Stacks :=
  (archive.names world).contents archive.version

/-- A call is answered so and writes this, and it touches neither the clock nor the destination. -/
def Answers (archive : Archive α ω) (c : Remote.Call) (world : ω)
    (reply : Except Fault (Remote.Reply c)) (writes : List Write) : Prop :=
  ∀ session, ∃ session' world', archive.handler c session world = (reply, session', world') ∧
    session.Alike session' ∧ archive.sound world' ∧ archive.reaches writes world world'

/-- A download of a name opens its newest version, or is refused by the service. -/
def Opens (archive : Archive α ω) (worker : Int) (name : String) (world : ω) : Prop :=
  match Stacks.held name (archive.stacked world) with
  | some content => ∃ opened : Remote.Opened, opened.source.content = content ∧ opened.source.Steady ∧
      archive.Answers (.download worker name) world (.ok opened) []
  | none => ∃ fault : Fault, fault.kind = .service ∧
      archive.Answers (.download worker name) world (.error fault) []

/-- What a vault relies on of an archive. -/
structure Lawful (archive : Archive α ω) : Prop where
  order_void : archive.order [] = []
  /-- A listing of a name holds its versions. -/
  order_perm {world : ω} (sound : archive.sound world) (name : String) :
    (archive.order ((archive.names world).history name)).Perm ((archive.names world).history name)
  /-- The newest version is listed first. -/
  order_head {world : ω} (sound : archive.sound world) (name : String) :
    (archive.order ((archive.names world).history name)).head? =
      ((archive.names world).history name).head?
  /-- The versions of a name have different identifiers. -/
  distinct {world : ω} (sound : archive.sound world) (name : String) :
    (((archive.names world).history name).map fun stored => (archive.version stored).id).Nodup
  /-- Writes change the versions as they say, and nothing else does. -/
  wrote {world world' : ω} {writes : List Write} (reached : archive.reaches writes world world') :
    (archive.names world).Wrote archive.version writes (archive.names world')
  /-- No writes are done by doing nothing. -/
  stay (world : ω) : archive.reaches [] world world
  /-- Writes follow each other. -/
  trans {world world' world'' : ω} {first second : List Write}
    (before : archive.reaches first world world')
    (after : archive.reaches second world' world'') : archive.reaches (first ++ second) world world''
  list {world : ω} (sound : archive.sound world) {worker : Int} (served : archive.serves worker)
    (stem : String) (exact withHidden : Bool) :
    archive.Answers (.list worker stem exact withHidden) world
      (.ok ((archive.names world).listing archive.version archive.order stem exact withHidden)) []
  delete {world : ω} (sound : archive.sound world) {worker : Int} (served : archive.serves worker)
    (name id : String) : archive.Answers (.delete worker name id) world (.ok ()) [.remove name id]
  hide {world : ω} (sound : archive.sound world) {worker : Int} (served : archive.serves worker)
    (name : String) :
    ∃ marker, archive.Answers (.hide worker name) world (.ok marker) [.push name none]
  upload {world : ω} (sound : archive.sound world) {worker : Int} (served : archive.serves worker)
    (name : String) (content : Bytes) (rate : Int) :
    archive.Answers (.upload worker name content rate) world (.ok ()) [.push name (some content)]
  download {world : ω} (sound : archive.sound world) {worker : Int} (served : archive.serves worker)
    (name : String) : archive.Opens worker name world

/-- From a desk and a state of the archive a program ends so, leaves this desk, and writes this. -/
def Runs (archive : Archive α ω) (program : Program Remote.interface β) (desk : Desk) (world : ω)
    (outcome : Except Fault β) (desk' : Desk) (writes : List Write) : Prop :=
  ∀ session : Session, session.desk = desk → ∃ session' world',
    program.run archive.handler session world = (outcome, session', world') ∧
      session'.desk = desk' ∧ archive.sound world' ∧ archive.reaches writes world world'

variable {archive : Archive α ω} {desk desk' desk'' : Desk} {world : ω} {writes writes' : List Write}

theorem Answers.runs {c : Remote.Call} {reply : Except Fault (Remote.Reply c)}
    (answers : archive.Answers c world reply writes) :
    archive.Runs (Remote.ask c) desk world reply desk writes := by
  intro session at_desk
  obtain ⟨session', world', answered, alike, sound, reached⟩ := answers session
  refine ⟨session', world', ?_, alike.desk.trans at_desk, sound, reached⟩
  rw [Remote.run_ask, answered]

/-- **A timed program writes what its body writes**, unless the body is interrupted. -/
theorem Runs.timed {body : Program Remote.interface β} {outcome : Except Fault β} (name : String)
    (worker : Int) (path : String) (calm : isInterrupted outcome = false)
    (ran : archive.Runs body desk.later world outcome desk' writes) :
    archive.Runs (Program.timed name worker path body) desk world
      (Program.timedOutcome desk.reading desk'.reading outcome) desk'.later writes := by
  intro session at_desk
  subst at_desk
  obtain ⟨ended, world', run, at_desk', sound, reached⟩ :=
    ran session.readClock.2 (readClock_desk session)
  subst at_desk'
  obtain ⟨last, run', alike⟩ := run_timed_calm name worker path calm run
  refine ⟨last, world', ?_, alike.desk.trans (readClock_desk ended), sound, reached⟩
  rw [run', readClock_reading, readClock_reading]

/-- What is told of how programs end and what they write, as long as it is told of a program by its
parts: of a call by its answer, and of a sequence by the writes of its parts one after the other. -/
structure Compositional (archive : Archive α ω)
    (ends : {β : Type} → Program Remote.interface β → ω → Except Fault β → List Write → Prop) :
    Prop where
  pure {β : Type} {world : ω} (sound : archive.sound world) (value : β) :
    ends (pure value) world (.ok value) []
  fail {β : Type} {world : ω} (sound : archive.sound world) (fault : Fault) :
    ends (.fail fault : Program Remote.interface β) world (.error fault) []
  note {world : ω} (sound : archive.sound world) (level : Log.Level) (part : Log.Part)
    (message : String) : ends (Program.note level part message) world (.ok ()) []
  ask {c : Remote.Call} {world : ω} {reply : Except Fault (Remote.Reply c)} {writes : List Write}
    (sound : archive.sound world) (answers : archive.Answers c world reply writes) :
    ends (Remote.ask c) world reply writes
  bind {β γ : Type} {first : Program Remote.interface β} {next : β → Program Remote.interface γ}
    {world : ω} {value : β} {outcome : Except Fault γ} {writes writes' : List Write}
    (before : ends first world (.ok value) writes)
    (after : ∀ world', archive.sound world' → archive.reaches writes world world' →
      ends (next value) world' outcome writes') :
    ends (first >>= next) world outcome (writes ++ writes')

namespace Lawful

variable (lawful : archive.Lawful)

include lawful

theorem runs_pure (sound : archive.sound world) (value : β) :
    archive.Runs (pure value) desk world (.ok value) desk [] := by
  intro session at_desk
  exact ⟨session, world, rfl, at_desk, sound, lawful.stay world⟩

/-- **The writes of a sequence are those of its parts**, one after the other. -/
theorem runs_bind {first : Program Remote.interface β} {next : β → Program Remote.interface γ}
    {value : β} {outcome : Except Fault γ}
    (before : archive.Runs first desk world (.ok value) desk' writes)
    (after : ∀ world', archive.sound world' → archive.reaches writes world world' →
      archive.Runs (next value) desk' world' outcome desk'' writes') :
    archive.Runs (first >>= next) desk world outcome desk'' (writes ++ writes') := by
  intro session at_desk
  obtain ⟨middle, world', ran, at_desk', sound, reached⟩ := before session at_desk
  obtain ⟨last, world'', ran', at_desk'', sound', reached'⟩ :=
    after world' sound reached middle at_desk'
  refine ⟨last, world'', ?_, at_desk'', sound', lawful.trans reached reached'⟩
  rw [Program.run_bind, ran]
  exact ran'

/-- How programs end that leave the desk as it is. -/
theorem runs_compositional (desk : Desk) :
    archive.Compositional fun program world outcome writes =>
      archive.Runs program desk world outcome desk writes where
  pure sound value := lawful.runs_pure sound value
  fail {_ world} sound fault := by
    intro session at_desk
    exact ⟨session, world, rfl, at_desk, sound, lawful.stay world⟩
  note {world} sound level part message := by
    intro session at_desk
    exact ⟨_, world, Program.run_note _ level part message session world, at_desk, sound,
      lawful.stay world⟩
  ask _ answers := answers.runs
  bind before after := lawful.runs_bind before after

/-- Without a write the versions stay. -/
theorem idle {world' : ω} (still : archive.reaches [] world world') :
    archive.names world' = archive.names world :=
  (lawful.wrote still).idle

/-- **A program may list first**, and goes on from the same versions. -/
theorem list_first
    {ends : {β : Type} → Program Remote.interface β → ω → Except Fault β → List Write → Prop}
    (told : archive.Compositional ends) (sound : archive.sound world) {worker : Int}
    (served : archive.serves worker) {stem : String} {exact withHidden : Bool}
    {next : List Entry → Program Remote.interface γ} {outcome : Except Fault γ}
    (after : ∀ world', archive.sound world' → archive.names world' = archive.names world →
      ends (next ((archive.names world).listing archive.version archive.order stem exact withHidden))
        world' outcome writes) :
    ends (Remote.ask (.list worker stem exact withHidden) >>= next) world outcome writes := by
  apply told.bind (told.ask sound (lawful.list sound served stem exact withHidden))
  intro world' sound' still
  exact after world' sound' (lawful.idle still)

end Lawful

end Archive

end FossilVault
