import FossilVault.Proofs.Archive.Crews
import FossilVault.Proofs.Ledger.Refinement
/-
**Deletions while others work.** A deletion lists a name and then deletes what it saw, one version at a
time, while other workers go on storing versions of the same name. What keeps their versions is that a
call deletes by identifier: none that came after the listing is among those that were listed.

* `Archive.Lawful.listed_before_deleted` — what is deleted was stored when its deleter listed it;
* `Archive.Purging`, `Archive.Lawful.purging_turn` — what holds while a purge goes on, whoever makes the
  next call;
* `Archive.Lawful.concurrent_deletions` — what deletions leave, however the calls interleave;
* `Ledger.archive_fresh` — a ledger never gives an identifier twice.
-/

namespace FossilVault

variable {α ω : Type}

namespace Archive

variable {archive : Archive α ω} {given : ω → String → String → Prop}
  {crew : Crew Remote.interface (Watched Remote.interface ω) Answer} {index : Nat} {name : String}

/-! ### What one turn takes away -/

/-- A turn that takes a version away makes the call that deletes it. -/
theorem Lawful.taken (lawful : archive.Lawful) (fresh : archive.Fresh given)
    {allowed : Remote.Call → Prop} {watched watched' : Watched Remote.interface ω}
    (turned : archive.Turned allowed watched watched') {stored : α}
    (before : stored ∈ (archive.names watched.world).history name)
    (gone : stored ∉ (archive.names watched'.world).history name) :
    ∃ worker, allowed (.delete worker name (archive.version stored).id) ∧
      watched'.calls = .delete worker name (archive.version stored).id :: watched.calls := by
  cases turned with
  | still => exact absurd before gone
  | called permitted _ reached =>
    rcases lawful.stack_served fresh reached name with ⟨pushed, stack, _⟩ | ⟨worker, id, rfl, stack⟩
    · rw [stack] at gone
      exact absurd (List.mem_append_right pushed before) gone
    · have named : (archive.version stored).id = id := by
        refine Decidable.by_contra fun other => gone ?_
        rw [stack]
        exact List.mem_filter.mpr ⟨before, by simpa using other⟩
      subst named
      exact ⟨worker, permitted, rfl⟩

variable (vault : Vault) {asked : List (Operation × Session)} {world : ω}

/-- **What a worker deletes was stored when he listed the name.** -/
theorem Lawful.listed_before_deleted (lawful : archive.Lawful) (fresh : archive.Fresh given)
    (sound : archive.sound world) (served : ∀ worker ∈ asked, archive.serves worker.1.worker)
    (before : List Nat) {stored : α} :
    let after := fun schedule =>
      (vault.crew asked ⟨world, []⟩).run archive.handler.recorded schedule
    stored ∈ (archive.names (after before).world.world).history name →
    stored ∉ (archive.names (after (before ++ [index])).world.world).history name →
    ∃ operation session first rest, asked[index]? = some (operation, session) ∧
      before = first ++ index :: rest ∧ index ∉ first ∧
      (after (first ++ [index])).world.calls =
        .list operation.worker name true true :: (after first).world.calls ∧
      stored ∈ (archive.names (after first).world.world).history name := by
  intro after present gone
  have start := staffed_crew vault sound served
  have staffed (schedule : List Nat) : archive.Staffed (after schedule) :=
    lawful.staffed_run start schedule
  have turn (schedule : List Nat) (index : Nat) :
      after (schedule ++ [index]) = (after schedule).turn archive.handler.recorded index :=
    Crew.run_concat _ _ _ _
  rw [turn] at gone
  cases asked_it : asked[index]? with
  | none =>
    have nobody : (after before).members[index]? = none := by
      have none := vault.members_crew_of_none (⟨world, []⟩ : Watched Remote.interface ω) asked_it
      rw [List.getElem?_eq_none_iff] at none ⊢
      rwa [Crew.length_members_run]
    rw [Crew.turn_of_none nobody] at gone
    exact absurd present gone
  | some worker =>
    obtain ⟨operation, session⟩ := worker
    have serves := served _ (List.mem_of_getElem? asked_it)
    have member := vault.members_crew_of_some (⟨world, []⟩ : Watched Remote.interface ω) asked_it
    -- Whatever the worker did before, a call that deletes is one of his operation.
    have own : (after before).Confined index operation.Makes :=
      (vault.confined_crew _ asked_it).run before
    obtain ⟨deleter, makes, called⟩ := lawful.taken fresh
      (lawful.turned (staffed before).sound own fun c makes => ⟨operation, serves, makes⟩) present gone
    obtain ⟨rfl, change, made, deletes⟩ := makes.change_of_delete
    have heeds := vault.heeds_perform made deletes
    by_cases seen : index ∈ before
    · obtain ⟨first, rest, rfl, absent⟩ := List.eq_append_cons_of_mem seen
      have fresh_member : (after first).members[index]? = some (vault.perform operation, session) :=
        (Crew.members_run_of_notMem absent).trans member
      have listed := (lawful.heeds_turn (staffed first).sound serves fresh_member heeds).1
      obtain ⟨heeding, later⟩ :=
        lawful.heeds_run fresh (staffed first) serves fresh_member heeds rest
      have onward : after (first ++ index :: rest) =
          (after first).run archive.handler.recorded (index :: rest) := Crew.run_append _ _ _ _
      rw [← onward] at heeding later
      have bounded : (after (first ++ index :: rest)).Confined index fun c =>
          operation.Makes c ∧ ∃ listed ∈ (archive.names (after first).world.world).history name,
            c = .delete operation.worker name (archive.version listed).id := fun member' at_index =>
        (own member' at_index).and (heeding member' at_index)
      obtain ⟨_, ⟨_, shown, among, same⟩, _⟩ := lawful.taken fresh
        (lawful.turned (staffed _).sound bounded fun c both => ⟨operation, serves, both.1⟩) present gone
      injection same with _ _ named
      refine ⟨operation, session, first, rest, rfl, rfl, absent, ?_, ?_⟩
      · rw [turn]
        exact listed
      · exact later.mem_of_listed fresh (staffed first).sound present among named
    · -- In his first turn a worker that deletes lists, and so nothing is gone.
      have fresh_member : (after before).members[index]? = some (vault.perform operation, session) :=
        (Crew.members_run_of_notMem seen).trans member
      obtain ⟨listed, _⟩ := lawful.heeds_turn (staffed before).sound serves fresh_member heeds
      rw [called] at listed
      cases listed

/-! ### A purge among other workers -/

/-- A worker that still has these versions of a name to delete, and makes no other call. -/
def Deleting (version : α → Version) (worker : Int) (name : String) (left : List α)
    (program : Program Remote.interface Answer) : Prop :=
  ∃ finish : Unit → Program Remote.interface Answer, (∀ value, (finish value).Only fun _ => False) ∧
    program =
      Vault.deleteAll worker name (left.map fun stored => (version stored).entry name) >>= finish

theorem Deleting.ended {version : α → Version} {worker : Int} {left : List α}
    {program : Program Remote.interface Answer} (deleting : Deleting version worker name left program)
    (ended : program.outcome.isSome = true) : left = [] := by
  obtain ⟨finish, _, rfl⟩ := deleting
  cases left with
  | nil => rfl
  | cons stored rest => cases ended

/-- The versions of a name above its first marker. -/
def alive (archive : Archive α ω) (name : String) (world : ω) : List α :=
  ((archive.names world).history name).takeWhile fun stored => (archive.version stored).content.isSome

/-- What became of the stack of a name since a listing: what was pushed since then stands on top, above
the versions that stay and those that are still to be deleted. -/
structure Account (archive : Archive α ω) (given : ω → String → String → Prop) (worker : Int)
    (name : String) (listed : Watched Remote.interface ω) (since : List Remote.Call)
    (pushed left : List α) (watched : Watched Remote.interface ω) : Prop where
  calls : watched.calls = since ++ .list worker name true true :: listed.calls
  stack : (archive.names watched.world).history name =
    pushed ++ (archive.alive name listed.world ++ left)
  holds : (pushed.map fun stored => (archive.version stored).content) =
    since.filterMap (Remote.Call.pushes name)
  new : ∀ stored ∈ pushed, ¬ given listed.world name (archive.version stored).id
  later : archive.Later given listed.world watched.world

section Turns

variable {worker : Int} {listed watched watched' : Watched Remote.interface ω}
  {since : List Remote.Call} {pushed left : List α}

/-- **Others may only push**: what they do stands on top of everything else. -/
theorem Lawful.account_turned (lawful : archive.Lawful) (fresh : archive.Fresh given)
    (account : archive.Account given worker name listed since pushed left watched)
    {allowed : Remote.Call → Prop} (spares : ∀ deleter id, ¬ allowed (.delete deleter name id))
    (turned : archive.Turned allowed watched watched') :
    ∃ since' pushed', archive.Account given worker name listed since' pushed' left watched' := by
  cases turned with
  | still => exact ⟨since, pushed, account⟩
  | @called c world' permitted _ reached =>
    rcases lawful.stack_served fresh reached name with ⟨top, stack, holds, new⟩ | ⟨_, _, rfl, _⟩
    · refine ⟨c :: since, top ++ pushed, ?_, ?_, ?_, ?_, account.later.trans ?_⟩
      · exact congrArg (c :: ·) account.calls
      · rw [stack, account.stack, List.append_assoc]
      · rw [List.map_append, holds, account.holds]
        cases called : c.pushes name <;> simp [called]
      · intro stored among
        rcases List.mem_append.mp among with above | below
        · exact fun was => new stored above (account.later.kept was)
        · exact account.new stored below
      · exact lawful.later_served fresh reached
    · exact absurd permitted (spares _ _)

/-- **The purge deletes the next version** of those that were left to it, and nothing else. -/
theorem Lawful.account_removed (lawful : archive.Lawful) (fresh : archive.Fresh given)
    (sound : archive.sound watched.world) {next : α}
    (account : archive.Account given worker name listed since pushed (next :: left) watched) {world' : ω}
    (reached : archive.reaches [.remove name (archive.version next).id] watched.world world') :
    archive.Account given worker name listed (.delete worker name (archive.version next).id :: since)
      pushed left ⟨world', .delete worker name (archive.version next).id :: watched.calls⟩ where
  calls := congrArg (_ :: ·) account.calls
  stack := by
    have distinct := lawful.distinct sound name
    have split : (archive.names watched.world).history name =
        (pushed ++ archive.alive name listed.world) ++ ([next] ++ left) := by
      rw [account.stack, List.append_assoc]
      rfl
    have removed : archive.names world' = (archive.names watched.world).replace name
        (spared archive.version [(archive.version next).id]
          ((archive.names watched.world).history name)) :=
      (lawful.wrote reached).removed
    rw [split] at distinct
    have rest := spared_part archive.version distinct
    rw [removed, Catalog.history_replace, if_pos rfl, split]
    exact rest.trans (List.append_assoc _ _ _)
  holds := account.holds
  new := account.new
  later := by
    have served : archive.reaches
        (Remote.Call.delete worker name (archive.version next).id).writes watched.world world' := reached
    exact account.later.trans (lawful.later_served fresh served)

/-- What holds between two calls after the listing of a purge: the purger has versions left to delete,
the others delete none of the name, and the account is kept. -/
structure Purging (archive : Archive α ω) (given : ω → String → String → Prop) (worker : Int)
    (name : String) (purger : Nat) (listed : Watched Remote.interface ω) (since : List Remote.Call)
    (pushed left : List α) (crew : Crew Remote.interface (Watched Remote.interface ω) Answer) :
    Prop where
  staffed : archive.Staffed crew
  purges (member : Program Remote.interface Answer × Session) : crew.members[purger]? = some member →
    Deleting archive.version worker name left member.1
  others (index : Nat) : index ≠ purger →
    crew.Confined index fun c => ∀ deleter id, c ≠ .delete deleter name id
  account : archive.Account given worker name listed since pushed left crew.world

variable {purger : Nat}

/-- A purge that has come to its end has nothing left to delete. -/
theorem Purging.left_nil
    (purging : archive.Purging given worker name purger listed since pushed left crew)
    (within : purger < crew.members.length) (finished : crew.Finished) : left = [] := by
  have last := List.getElem?_eq_getElem within
  exact (purging.purges _ last).ended (finished _ (List.mem_of_getElem? last))

/-- The purger's turn: it deletes the next version, or has come to its end. -/
theorem Lawful.account_purger (lawful : archive.Lawful) (fresh : archive.Fresh given)
    (served : archive.serves worker)
    (purging : archive.Purging given worker name purger listed since pushed left crew) :
    let crew' := crew.turn archive.handler.recorded purger
    ∃ since' left', (∀ member, crew'.members[purger]? = some member →
        Deleting archive.version worker name left' member.1) ∧
      archive.Account given worker name listed since' pushed left' crew'.world := by
  intro crew'
  cases somebody : crew.members[purger]? with
  | none =>
    have still : crew' = crew := Crew.turn_of_none somebody
    rw [still]
    exact ⟨since, left, purging.purges, purging.account⟩
  | some member =>
    obtain ⟨program, session⟩ := member
    obtain ⟨finish, quiet, rfl⟩ := purging.purges _ somebody
    have moved := Crew.members_turn_self (h := archive.handler.recorded) somebody
    have world_moved := congrArg Crew.world (Crew.turn_of_some (h := archive.handler.recorded) somebody)
    cases left with
    | nil =>
      rcases (quiet ()).advance session with ⟨program', session', _, only, ran⟩ | ⟨_, _, _, none, _⟩
      · have ran : (Vault.deleteAll worker name [] >>= finish).advance archive.handler.recorded session
            crew.world = (program', session', crew.world) := ran _ _
        refine ⟨since, [], ?_, ?_⟩
        · intro member at_index
          rw [moved, List.map_nil, ran] at at_index
          cases at_index
          exact ⟨fun _ => program', fun _ => only, rfl⟩
        · rw [world_moved, List.map_nil, ran]
          exact purging.account
      · exact none.elim
    | cons next rest =>
      obtain ⟨session', world', answered, _, _, reached⟩ :=
        lawful.delete purging.staffed.sound served name (archive.version next).id session
      have called := Handler.recorded_eq archive.handler
        (.delete worker name (archive.version next).id) session crew.world
      rw [answered] at called
      have ran : (Vault.deleteAll worker name
          ((next :: rest).map fun stored => (archive.version stored).entry name) >>= finish).advance
            archive.handler.recorded session crew.world =
          (Vault.deleteAll worker name (rest.map fun stored => (archive.version stored).entry name) >>=
            finish, session',
            ⟨world', .delete worker name (archive.version next).id :: crew.world.calls⟩) := by
        rw [List.map_cons, Vault.deleteAll, Program.bind_assoc, Remote.advance_ask]
        simp only [Version.entry_id, called]
        rfl
      refine ⟨.delete worker name (archive.version next).id :: since, rest, ?_, ?_⟩
      · intro member at_index
        rw [moved, ran] at at_index
        cases at_index
        exact ⟨finish, quiet, rfl⟩
      · rw [world_moved, ran]
        exact lawful.account_removed fresh purging.staffed.sound purging.account reached

/-- **Whoever makes the next call**, the account of a purge is kept. -/
theorem Lawful.purging_turn (lawful : archive.Lawful) (fresh : archive.Fresh given)
    (served : archive.serves worker)
    (purging : archive.Purging given worker name purger listed since pushed left crew) (index : Nat) :
    ∃ since' pushed' left', archive.Purging given worker name purger listed since' pushed' left'
      (crew.turn archive.handler.recorded index) := by
  have staffed := lawful.staffed_turn purging.staffed index
  have others (place : Nat) (other : place ≠ purger) :
      (crew.turn archive.handler.recorded index).Confined place fun c =>
        ∀ deleter id, c ≠ .delete deleter name id :=
    (purging.others place other).turn index
  by_cases same : index = purger
  · subst same
    obtain ⟨since', left', purges, account⟩ := lawful.account_purger fresh served purging
    exact ⟨since', pushed, left', staffed, purges, others, account⟩
  · have bounded : crew.Confined index fun c =>
        archive.Serves c ∧ ∀ deleter id, c ≠ .delete deleter name id := fun member at_index =>
      (purging.staffed.served index member at_index).and (purging.others index same member at_index)
    obtain ⟨since', pushed', account⟩ := lawful.account_turned fresh purging.account
      (fun deleter id permitted => permitted.2 deleter id rfl)
      (lawful.turned purging.staffed.sound bounded fun _ both => both.1)
    refine ⟨since', pushed', left, staffed, ?_, others, account⟩
    rw [Crew.members_turn_of_ne same]
    exact purging.purges

theorem Lawful.purging_run (lawful : archive.Lawful) (fresh : archive.Fresh given)
    (served : archive.serves worker)
    (purging : archive.Purging given worker name purger listed since pushed left crew)
    (schedule : List Nat) :
    ∃ since' pushed' left', archive.Purging given worker name purger listed since' pushed' left'
      (crew.run archive.handler.recorded schedule) := by
  induction schedule generalizing crew since pushed left with
  | nil => exact ⟨since, pushed, left, purging⟩
  | cons index rest ih =>
    obtain ⟨since', pushed', left', turned⟩ := lawful.purging_turn fresh served purging index
    exact ih turned

/-- The listing of a purge opens the account. -/
theorem Lawful.purging_start (lawful : archive.Lawful) (fresh : archive.Fresh given)
    (staffed : archive.Staffed crew) (served : archive.serves worker) {session : Session}
    (straight : archive.order ((archive.names crew.world.world).history name) =
      (archive.names crew.world.world).history name)
    (somebody : crew.members[purger]? =
      some (vault.perform (.delete worker (Fossil.fossilOf name)), session))
    (others : ∀ index, index ≠ purger →
      crew.Confined index fun c => ∀ deleter id, c ≠ .delete deleter name id) :
    ∃ left, archive.Purging given worker name purger crew.world [] [] left
      (crew.turn archive.handler.recorded purger) := by
  obtain ⟨finish, quiet, purges⟩ := vault.perform_purge worker name
  rw [purges] at somebody
  obtain ⟨session', world', _, reached, ran⟩ :=
    lawful.list_advance staffed.sound served name _ session
  have same := lawful.idle reached
  let stack := (archive.names crew.world.world).history name
  refine ⟨condemned archive.version stack, lawful.staffed_turn staffed purger, ?_,
    fun index other => (others index other).turn purger, ?_⟩
  · intro member at_index
    rw [Crew.members_turn_self somebody, ran, straight, doomed_map] at at_index
    cases at_index
    exact ⟨finish _, quiet _, rfl⟩
  · rw [Crew.turn_of_some somebody, ran]
    refine ⟨rfl, ?_, rfl, fun _ none => (List.not_mem_nil none).elim, fresh.kept reached, ?_⟩
    · show (archive.names world').history name = _
      rw [same]
      exact List.takeWhile_append_dropWhile.symm
    · intro other stored among
      simp only [same] at among
      exact .inl among

end Turns

/-! ### All deletions -/

/-- A worker deletes none of a name if his operation does not change it, or pushes onto it. -/
theorem spares_crew {asked : List (Operation × Session)} {watched : Watched Remote.interface ω}
    (pushes : ∀ operation session change, asked[index]? = some (operation, session) →
      operation.change = some (name, change) → change = .hide ∨ ∃ content, change = .push content) :
    (vault.crew asked watched).Confined index fun c => ∀ deleter id, c ≠ .delete deleter name id := by
  intro member at_index
  cases asked_it : asked[index]? with
  | none =>
    rw [vault.members_crew_of_none _ asked_it] at at_index
    cases at_index
  | some worker =>
    refine (vault.confined_crew _ asked_it member at_index).mono ?_
    rintro c makes deleter id rfl
    obtain ⟨_, change, made, deletes⟩ := makes.change_of_delete
    rcases pushes _ _ change asked_it made with rfl | ⟨content, rfl⟩ <;> simp at deletes

/-- **Deletions take nothing that came after their listing.** Workers were asked for any operations and
make their calls in any order, on an archive that gives no identifier of a name twice. Whenever a turn
takes a version away, the version was stored when the worker whose turn it is listed the name. And if one
of them purges a name, which the others only push onto or hide, then after everything was done the name
has the versions that were pushed since the purge listed it, above those active versions that were listed
before the first marker. -/
theorem Lawful.concurrent_deletions (lawful : archive.Lawful) (fresh : archive.Fresh given)
    (sound : archive.sound world) (served : ∀ worker ∈ asked, archive.serves worker.1.worker)
    (schedule : List Nat) :
    let after := fun schedule =>
      (vault.crew asked ⟨world, []⟩).run archive.handler.recorded schedule
    let stack := fun name schedule => (archive.names (after schedule).world.world).history name
    (∀ before index rest, schedule = before ++ index :: rest → ∀ name stored,
      stored ∈ stack name before → stored ∉ stack name (before ++ [index]) →
      ∃ operation session first rest', asked[index]? = some (operation, session) ∧
        before = first ++ index :: rest' ∧ index ∉ first ∧
        (after (first ++ [index])).world.calls =
          .list operation.worker name true true :: (after first).world.calls ∧
        stored ∈ stack name first) ∧
    ∀ purger worker name session,
      asked[purger]? = some (.delete worker (Fossil.fossilOf name), session) →
      (∀ index, index ≠ purger → ∀ operation session change, asked[index]? = some (operation, session) →
        operation.change = some (name, change) → change = .hide ∨ ∃ content, change = .push content) →
      (∀ world, archive.sound world →
        archive.order ((archive.names world).history name) = (archive.names world).history name) →
      (after schedule).Finished →
      ∃ first rest since pushed, schedule = first ++ purger :: rest ∧ purger ∉ first ∧
        (after (first ++ [purger])).world.calls =
          .list worker name true true :: (after first).world.calls ∧
        (after schedule).world.calls = since ++ (after (first ++ [purger])).world.calls ∧
        (pushed.map fun stored => (archive.version stored).content) =
          since.filterMap (Remote.Call.pushes name) ∧
        (∀ stored ∈ pushed,
          ¬ given (after first).world.world name (archive.version stored).id) ∧
        stack name schedule = pushed ++
          (stack name first).takeWhile fun stored => (archive.version stored).content.isSome := by
  intro after stack
  refine ⟨?_, ?_⟩
  · intro before index rest _ name stored present gone
    exact lawful.listed_before_deleted vault fresh sound served before present gone
  · intro purger worker name session purge pushes straight finished
    have serves := served _ (List.mem_of_getElem? purge)
    have member := vault.members_crew_of_some (⟨world, []⟩ : Watched Remote.interface ω) purge
    have heeds := vault.heeds_perform (Operation.change_purge worker name) (.inr (.inr rfl))
    have turned : purger ∈ schedule := Crew.mem_of_finished member heeds.outcome finished
    obtain ⟨first, rest, rfl, absent⟩ := List.eq_append_cons_of_mem turned
    have staffed : archive.Staffed (after first) :=
      lawful.staffed_run (staffed_crew vault sound served) first
    have present : (after first).members[purger]? = some (_, session) :=
      (Crew.members_run_of_notMem absent).trans member
    obtain ⟨listed, _⟩ := lawful.heeds_turn staffed.sound serves present heeds
    obtain ⟨left, opened⟩ := lawful.purging_start vault fresh staffed serves
      (straight _ staffed.sound) present fun index other =>
        (spares_crew vault (pushes index other)).run first
    obtain ⟨since, pushed, left', purging⟩ := lawful.purging_run fresh serves opened rest
    have onward : after (first ++ purger :: rest) =
        ((after first).turn archive.handler.recorded purger).run archive.handler.recorded rest :=
      Crew.run_append _ _ _ _
    have turn : after (first ++ [purger]) = (after first).turn archive.handler.recorded purger :=
      Crew.run_concat _ _ _ _
    rw [← onward] at purging
    have nothing : left' = [] := by
      refine purging.left_nil ?_ finished
      rw [Crew.length_members_run]
      exact (List.getElem?_eq_some_iff.mp member).1
    subst nothing
    refine ⟨first, rest, since, pushed, rfl, absent, turn ▸ listed, ?_, purging.account.holds,
      purging.account.new, ?_⟩
    · rw [turn, listed]
      exact purging.account.calls
    · have left := purging.account.stack
      rw [List.append_nil] at left
      exact left

end Archive

/-- **A ledger never gives an identifier twice.** -/
theorem Ledger.archive_fresh : Ledger.archive.Fresh fun ledger _ id => Ledger.Given ledger.issued id where
  stored {ledger} sound {name stored} among := Ledger.Sound.given sound name stored among
  kept {ledger ledger' writes} reached {name id} was := by
    subst reached
    induction writes generalizing ledger with
    | nil => exact was
    | cons first rest ih =>
      cases first with
      | push path content => exact ih was.later
      | remove path id => exact ih was
  new {ledger ledger' name content} reached {stored} top := by
    subst reached
    have pushed := (Ledger.history_push ledger name content name).trans (if_pos rfl)
    have same : stored = ⟨Ledger.identifier (ledger.issued + 1), content⟩ :=
      (List.cons.inj (top.symm.trans pushed)).1
    rw [same]
    exact Ledger.not_given_next ledger.issued

/-- A version that is stored between the listing of a purge and its deletions stays, and can be hidden. -/
theorem Ledger.concurrent_purge_spares :
    let ledger := (Vault.after {} Ledger.answer
      [.upload 0 "n" [120], .move 0 "n" (Fossil.fossilOf "n")] ({}, {})).2
    let asked := [(Operation.delete 0 (Fossil.fossilOf "n"), ({} : Session)),
      (.upload 1 "n" [121], {}), (.move 2 "n" (Fossil.fossilOf "n"), {})]
    let ended := (Vault.crew {} asked ⟨ledger, []⟩).run Ledger.archive.handler.recorded
      [0, 1, 0, 0, 2, 2, 0, 1, 2]
    ledger.Sound ∧ ledger.history "n" = [⟨"v2", none⟩, ⟨"v1", some [120]⟩] ∧ ended.Finished ∧
      ∃ pushed : List Version, pushed.map (·.content) = [none, some [121]] ∧
        ended.world.world.history "n" = pushed := by
  intro ledger asked ended
  have sound : ledger.Sound := Ledger.sound_after {} _ {}
  have stacked : ledger.history "n" = [⟨"v2", none⟩, ⟨"v1", some [120]⟩] := by decide +kernel
  have finished : ended.Finished := by decide +kernel
  have calls : ended.world.calls = [.hide 2 "n", .list 2 "n" true true, .delete 0 "n" "v1",
      .delete 0 "n" "v2", .upload 1 "n" [121] 0] ++ [.list 0 "n" true true] := by decide +kernel
  have pushes (index : Nat) (other : index ≠ 0) (operation : Operation) (session : Session)
      (change : Change) (asked_it : asked[index]? = some (operation, session))
      (made : operation.change = some ("n", change)) :
      change = .hide ∨ ∃ content, change = .push content := by
    match index with
    | 0 => exact absurd rfl other
    | 1 =>
      cases asked_it
      cases made
      exact .inr ⟨[121], rfl⟩
    | 2 =>
      cases asked_it
      rw [Operation.change_hide 2 (by decide)] at made
      cases made
      exact .inl rfl
    | _ + 3 => cases asked_it
  have bare : (ledger.history "n").takeWhile (fun stored => stored.content.isSome) = [] := by
    rw [stacked]
    rfl
  have spared := Archive.Lawful.concurrent_deletions {} Ledger.archive_lawful Ledger.archive_fresh sound
    (show ∀ worker ∈ asked, Ledger.archive.serves worker.1.worker from fun _ _ => trivial)
    [0, 1, 0, 0, 2, 2, 0, 1, 2]
  -- A name for the crew after a schedule, so that no run is evaluated below.
  obtain ⟨after, same⟩ :
      ∃ after : List Nat → Crew Remote.interface (Watched Remote.interface Ledger) Answer,
        after = fun schedule =>
          (Vault.crew {} asked ⟨ledger, []⟩).run Ledger.archive.handler.recorded schedule := ⟨_, rfl⟩
  have last : ended = after [0, 1, 0, 0, 2, 2, 0, 1, 2] := by rw [same]
  have start : (after []).world = ⟨ledger, []⟩ := by
    rw [same]
    rfl
  rw [← same] at spared
  rw [last] at finished calls ⊢
  obtain ⟨first, rest, since, pushed, split, absent, listed, called, holds, -, left⟩ :=
    spared.2 0 0 "n" {} rfl pushes (fun _ _ => rfl) finished
  have whole : first = [] := by
    cases first with
    | nil => rfl
    | cons worker others =>
      have same : 0 = worker := (List.cons.inj split).1
      exact absurd (same ▸ List.mem_cons_self) absent
  subst whole
  simp only [start] at listed left
  rw [listed, calls] at called
  rw [← List.append_cancel_right called] at holds
  refine ⟨sound, stacked, finished, pushed, holds, ?_⟩
  exact left.trans ((congrArg (pushed ++ ·) bare).trans (List.append_nil pushed))

end FossilVault
