import FossilVault.Proofs.Archive.Effect
import FossilVault.Proofs.Turns
/-
**Crews on an archive.** Workers that share an archive make one call after the other, and each call
leaves a mark on the stack of at most one name. A call deletes by identifier, so where no identifier is
given twice a version that came after a listing is not named by what was listed.

* `Remote.Call.writes`, `Archive.Lawful.answers_served` — what a call writes;
* `Archive.Fresh` — an archive that never gives an identifier of a name twice;
* `Archive.Lawful.stack_served` — what one call does to the stack of a name;
* `Archive.Later`, `Archive.Later.mem_of_listed` — what a later state can hold;
* `Archive.Lawful.turned`, `Archive.Lawful.later_run` — what a turn and a schedule come to;
* `Archive.Lawful.heeds_turn`, `Archive.Lawful.heeds_run` — the listing of a deletion bounds what it
  deletes.
-/

namespace FossilVault

variable {α ω : Type}

/-! ### What a call writes -/

namespace Remote.Call

/-- What a call writes when it is served. -/
def writes : Remote.Call → List Write
  | .hide _ name => [.push name none]
  | .upload _ name content _ => [.push name (some content)]
  | .delete _ name id => [.remove name id]
  | .authorize | .findBucket _ | .list .. | .download .. => []

/-- What a call puts on top of a name. -/
def pushes (name : String) : Remote.Call → Option (Option Bytes)
  | .hide _ path => if path = name then some none else none
  | .upload _ path content _ => if path = name then some (some content) else none
  | .authorize | .findBucket _ | .list .. | .delete .. | .download .. => none

end Remote.Call

/-- An operation that deletes versions of a name is a change of the name that does. -/
theorem Operation.Makes.change_of_delete {operation : Operation} {worker : Int} {name id : String}
    (makes : operation.Makes (.delete worker name id)) :
    operation.worker = worker ∧ ∃ change, operation.change = some (name, change) ∧
      (change = .unhide ∨ change = .pop ∨ change = .purge) := by
  cases makes with
  | unhide made => exact ⟨rfl, _, made, .inl rfl⟩
  | delete path =>
    refine ⟨rfl, _, rfl, ?_⟩
    split
    · exact .inr (.inr rfl)
    · exact .inr (.inl rfl)

namespace Archive

variable {archive : Archive α ω} {given : ω → String → String → Prop} {world world' : ω}

/-- A worker that the archive serves may make this call for one of his operations. -/
def Serves (archive : Archive α ω) (c : Remote.Call) : Prop :=
  ∃ operation : Operation, archive.serves operation.worker ∧ operation.Makes c

/-- A call that is served is answered, and makes its write. -/
theorem Lawful.answers_served (lawful : archive.Lawful) (sound : archive.sound world) {c : Remote.Call}
    (serves : archive.Serves c) : ∃ reply, archive.Answers c world reply c.writes := by
  obtain ⟨operation, served, makes⟩ := serves
  cases makes with
  | upload worker path content rate => exact ⟨_, lawful.upload sound served path content rate⟩
  | download worker path destination =>
    have opens := lawful.download sound served path
    unfold Opens at opens
    split at opens
    · obtain ⟨opened, _, _, answers⟩ := opens
      exact ⟨_, answers⟩
    · obtain ⟨fault, _, answers⟩ := opens
      exact ⟨_, answers⟩
  | consider | examine | inspect | list => exact ⟨_, lawful.list sound served _ _ _⟩
  | @hide worker source target name made =>
    obtain ⟨marker, answers⟩ := lawful.hide sound served name
    exact ⟨_, answers⟩
  | unhide made id => exact ⟨_, lawful.delete sound served _ id⟩
  | delete worker path id => exact ⟨_, lawful.delete sound served _ id⟩

/-- An archive that never gives an identifier of a name twice. -/
structure Fresh (archive : Archive α ω) (given : ω → String → String → Prop) : Prop where
  /-- A stored version has an identifier that was given. -/
  stored {world : ω} (sound : archive.sound world) {name : String} {stored : α}
    (among : stored ∈ (archive.names world).history name) : given world name (archive.version stored).id
  /-- What was given stays so. -/
  kept {world world' : ω} {writes : List Write} (reached : archive.reaches writes world world')
    {name id : String} (was : given world name id) : given world' name id
  /-- A new version has an identifier that was not given. -/
  new {world world' : ω} {name : String} {content : Option Bytes}
    (reached : archive.reaches [.push name content] world world') {stored : α}
    (top : (archive.names world').history name = stored :: (archive.names world).history name) :
    ¬ given world name (archive.version stored).id

/-- New versions on top of a stack, with what they hold, under identifiers that were not given. -/
def Grown (archive : Archive α ω) (given : ω → String → String → Prop) (name : String)
    (contents : List (Option Bytes)) (world world' : ω) : Prop :=
  ∃ pushed : List α, (archive.names world').history name = pushed ++ (archive.names world).history name ∧
    (pushed.map fun stored => (archive.version stored).content) = contents ∧
    ∀ stored ∈ pushed, ¬ given world name (archive.version stored).id

theorem Grown.still {name : String}
    (same : (archive.names world').history name = (archive.names world).history name) :
    archive.Grown given name [] world world' :=
  ⟨[], same, rfl, fun _ among => nomatch among⟩

theorem Lawful.grown_push (lawful : archive.Lawful) (fresh : archive.Fresh given) {path : String}
    {content : Option Bytes} (reached : archive.reaches [.push path content] world world')
    (name : String) :
    archive.Grown given name (if path = name then some content else none).toList world world' := by
  obtain ⟨stored, holds, pushed⟩ := (lawful.wrote reached).pushed
  have stack := Catalog.history_push (archive.names world) path stored name
  rw [← pushed] at stack
  by_cases same : path = name
  · subst same
    rw [if_pos rfl] at stack ⊢
    refine ⟨[stored], stack, congrArg (fun held => [held]) holds, ?_⟩
    intro stored' among
    rw [List.mem_singleton.mp among]
    exact fresh.new reached stack
  · rw [if_neg (Ne.symm same)] at stack
    rw [if_neg same]
    exact .still stack

/-- **What a call does to the stack of a name**: it puts what it pushes on top, or takes away the
versions that have one identifier. -/
theorem Lawful.stack_served (lawful : archive.Lawful) (fresh : archive.Fresh given) {c : Remote.Call}
    (reached : archive.reaches c.writes world world') (name : String) :
    archive.Grown given name (c.pushes name).toList world world' ∨
      ∃ worker id, c = .delete worker name id ∧ (archive.names world').history name =
        spared archive.version [id] ((archive.names world).history name) := by
  have untouched (idle : c.writes = []) :
      (archive.names world').history name = (archive.names world).history name := by
    rw [idle] at reached
    rw [lawful.idle reached]
  cases c with
  | authorize | findBucket | list | download => exact .inl (.still (untouched rfl))
  | hide worker path => exact .inl (lawful.grown_push fresh reached name)
  | upload worker path content rate => exact .inl (lawful.grown_push fresh reached name)
  | delete worker path id =>
    have removed : archive.names world' = (archive.names world).replace path
        (spared archive.version [id] ((archive.names world).history path)) :=
      (lawful.wrote reached).removed
    have stack := Catalog.history_replace (archive.names world) path
      (spared archive.version [id] ((archive.names world).history path)) name
    rw [← removed] at stack
    by_cases same : name = path
    · subst same
      exact .inr ⟨worker, id, rfl, stack.trans (if_pos rfl)⟩
    · exact .inl (.still (stack.trans (if_neg same)))

/-! ### Later states -/

/-- A state that calls lead to: what was given stays given, and a version that was not stored has an
identifier that was not given. -/
structure Later (archive : Archive α ω) (given : ω → String → String → Prop) (world world' : ω) :
    Prop where
  kept {name id : String} (was : given world name id) : given world' name id
  stored {name : String} {stored : α} (among : stored ∈ (archive.names world').history name) :
    stored ∈ (archive.names world).history name ∨ ¬ given world name (archive.version stored).id

theorem Later.refl (archive : Archive α ω) (given : ω → String → String → Prop) (world : ω) :
    archive.Later given world world :=
  ⟨id, .inl⟩

theorem Later.trans {world'' : ω} (first : archive.Later given world world')
    (second : archive.Later given world' world'') : archive.Later given world world'' where
  kept was := second.kept (first.kept was)
  stored among := by
    rcases second.stored among with before | new
    · exact first.stored before
    · exact .inr fun was => new (first.kept was)

theorem Lawful.later_served (lawful : archive.Lawful) (fresh : archive.Fresh given) {c : Remote.Call}
    (reached : archive.reaches c.writes world world') : archive.Later given world world' where
  kept was := fresh.kept reached was
  stored {name stored} among := by
    rcases lawful.stack_served fresh reached name with ⟨pushed, stack, _, new⟩ | ⟨_, _, _, stack⟩
    · rw [stack] at among
      rcases List.mem_append.mp among with top | before
      · exact .inr (new stored top)
      · exact .inl before
    · rw [stack] at among
      exact .inl (List.mem_filter.mp among).1

/-- **What the listing did not see is not named by it**: a later version whose identifier was listed was
stored. -/
theorem Later.mem_of_listed (later : archive.Later given world world') (fresh : archive.Fresh given)
    (sound : archive.sound world) {name : String} {stored listed : α}
    (among : stored ∈ (archive.names world').history name)
    (seen : listed ∈ (archive.names world).history name)
    (same : (archive.version stored).id = (archive.version listed).id) :
    stored ∈ (archive.names world).history name := by
  rcases later.stored among with before | new
  · exact before
  · exact absurd (fresh.stored sound seen) (same ▸ new)

/-! ### Crews on an archive -/

variable {crew : Crew Remote.interface (Watched Remote.interface ω) Answer} {index : Nat}
  {allowed : Remote.Call → Prop}

/-- What a turn comes to: nothing, or one of the allowed calls, which is recorded and makes its write. -/
inductive Turned (archive : Archive α ω) (allowed : Remote.Call → Prop)
    (watched : Watched Remote.interface ω) : Watched Remote.interface ω → Prop
  | still : Turned archive allowed watched watched
  | called {c : Remote.Call} {world' : ω} (permitted : allowed c) (sound : archive.sound world')
      (reached : archive.reaches c.writes watched.world world') :
      Turned archive allowed watched ⟨world', c :: watched.calls⟩

theorem Turned.sound {watched watched' : Watched Remote.interface ω}
    (turned : archive.Turned allowed watched watched') (sound : archive.sound watched.world) :
    archive.sound watched'.world := by
  cases turned with
  | still => exact sound
  | called _ sound' _ => exact sound'

theorem Lawful.later_turned (lawful : archive.Lawful) (fresh : archive.Fresh given)
    {watched watched' : Watched Remote.interface ω} (turned : archive.Turned allowed watched watched') :
    archive.Later given watched.world watched'.world := by
  cases turned with
  | still => exact .refl archive given _
  | called _ _ reached => exact lawful.later_served fresh reached

/-- **A turn of a member** comes to nothing, or to one call that was left to it. -/
theorem Lawful.turned (lawful : archive.Lawful) (sound : archive.sound crew.world.world)
    (confined : crew.Confined index allowed) (serves : ∀ c, allowed c → archive.Serves c) :
    archive.Turned allowed crew.world (crew.turn archive.handler.recorded index).world := by
  cases somebody : crew.members[index]? with
  | none =>
    rw [Crew.turn_of_none somebody]
    exact .still
  | some member =>
    obtain ⟨program, session⟩ := member
    rw [Crew.turn_of_some somebody]
    rcases (confined _ somebody).advance session with
      ⟨program', session', _, _, ran⟩ | ⟨c, session', next, permitted, _, ran⟩
    · rw [ran]
      exact .still
    · obtain ⟨reply, answers⟩ := lawful.answers_served sound (serves c permitted)
      obtain ⟨session'', world', answered, _, sound', reached⟩ := answers session'
      rw [ran, Handler.recorded_eq, answered]
      exact .called permitted sound' reached

/-- A crew on an archive in one of its states, whose members make served calls only. -/
structure Staffed (archive : Archive α ω)
    (crew : Crew Remote.interface (Watched Remote.interface ω) Answer) : Prop where
  sound : archive.sound crew.world.world
  served (index : Nat) : crew.Confined index archive.Serves

theorem Lawful.staffed_turn (lawful : archive.Lawful) (staffed : archive.Staffed crew) (index : Nat) :
    archive.Staffed (crew.turn archive.handler.recorded index) where
  sound := (lawful.turned staffed.sound (staffed.served index) fun _ serves => serves).sound staffed.sound
  served place := (staffed.served place).turn index

theorem Lawful.staffed_run (lawful : archive.Lawful) (staffed : archive.Staffed crew)
    (schedule : List Nat) : archive.Staffed (crew.run archive.handler.recorded schedule) := by
  induction schedule generalizing crew with
  | nil => exact staffed
  | cons index rest ih => exact ih (lawful.staffed_turn staffed index)

/-- **After a schedule** an archive is in a later state. -/
theorem Lawful.later_run (lawful : archive.Lawful) (fresh : archive.Fresh given)
    (staffed : archive.Staffed crew) (schedule : List Nat) :
    archive.Later given crew.world.world (crew.run archive.handler.recorded schedule).world.world := by
  induction schedule generalizing crew with
  | nil => exact .refl archive given _
  | cons index rest ih =>
    have turned := lawful.turned staffed.sound (staffed.served index) fun _ serves => serves
    exact (lawful.later_turned fresh turned).trans (ih (lawful.staffed_turn staffed index))

/-- Workers that the archive serves and that were asked for one operation each. -/
theorem staffed_crew (vault : Vault) {asked : List (Operation × Session)} {world : ω}
    (sound : archive.sound world)
    (served : ∀ worker ∈ asked, archive.serves worker.1.worker) :
    archive.Staffed (vault.crew asked ⟨world, []⟩) where
  sound
  served index member somebody := by
    cases asked_it : asked[index]? with
    | none =>
      rw [vault.members_crew_of_none _ asked_it] at somebody
      cases somebody
    | some worker =>
      have serves := served _ (List.mem_of_getElem? asked_it)
      exact (vault.confined_crew _ asked_it member somebody).mono fun c makes => ⟨worker.1, serves, makes⟩

/-! ### The listing of a deletion -/

/-- A program that starts with the listing of a name makes it in its first turn. -/
theorem Lawful.list_advance (lawful : archive.Lawful) {watched : Watched Remote.interface ω}
    (sound : archive.sound watched.world) {worker : Int} (served : archive.serves worker) (name : String)
    (next : List Entry → Program Remote.interface Answer) (session : Session) :
    ∃ session' world', archive.sound world' ∧ archive.reaches [] watched.world world' ∧
      (Remote.ask (.list worker name true true) >>= next).advance archive.handler.recorded session
          watched =
        (next ((archive.order ((archive.names watched.world).history name)).map fun stored =>
          (archive.version stored).entry name), session',
          ⟨world', .list worker name true true :: watched.calls⟩) := by
  obtain ⟨session', world', answered, _, sound', reached⟩ :=
    lawful.list sound served name true true session
  have called := Handler.recorded_eq archive.handler (.list worker name true true) session watched
  rw [answered, Catalog.listing_exact _ lawful.order_void, Catalog.shelfListing, if_pos rfl] at called
  refine ⟨session', world', sound', reached, ?_⟩
  rw [Remote.advance_ask, called]
  rfl

/-- **The first turn of a worker that deletes is its listing**, and after it the worker deletes nothing
that was not listed. -/
theorem Lawful.heeds_turn (lawful : archive.Lawful) (sound : archive.sound crew.world.world)
    {worker : Int} (served : archive.serves worker) {name : String}
    {program : Program Remote.interface Answer} {session : Session}
    (somebody : crew.members[index]? = some (program, session)) (heeds : program.Heeds worker name) :
    (crew.turn archive.handler.recorded index).world.calls =
        .list worker name true true :: crew.world.calls ∧
      (crew.turn archive.handler.recorded index).Confined index fun c =>
        ∃ listed ∈ (archive.names crew.world.world).history name,
          c = .delete worker name (archive.version listed).id := by
  obtain ⟨next, rfl, only⟩ := heeds
  obtain ⟨session', world', _, _, ran⟩ := lawful.list_advance sound served name next session
  constructor
  · rw [Crew.turn_of_some somebody, ran]
  · intro member at_index
    rw [Crew.members_turn_self somebody, ran] at at_index
    cases at_index
    refine (only _).mono ?_
    rintro c ⟨entry, among, rfl⟩
    obtain ⟨listed, inside, rfl⟩ := List.mem_map.mp among
    exact ⟨listed, (lawful.order_perm sound name).mem_iff.mp inside, rfl⟩

/-- **After the listing of a worker that deletes**, whatever else is done, it deletes nothing that was not
listed, and the archive is in a later state. -/
theorem Lawful.heeds_run (lawful : archive.Lawful) (fresh : archive.Fresh given)
    (staffed : archive.Staffed crew) {worker : Int} (served : archive.serves worker) {name : String}
    {program : Program Remote.interface Answer} {session : Session}
    (somebody : crew.members[index]? = some (program, session)) (heeds : program.Heeds worker name)
    (rest : List Nat) :
    (crew.run archive.handler.recorded (index :: rest)).Confined index (fun c =>
        ∃ listed ∈ (archive.names crew.world.world).history name,
          c = .delete worker name (archive.version listed).id) ∧
      archive.Later given crew.world.world
        (crew.run archive.handler.recorded (index :: rest)).world.world :=
  ⟨(lawful.heeds_turn staffed.sound served somebody heeds).2.run rest,
    lawful.later_run fresh staffed (index :: rest)⟩

end Archive

end FossilVault
