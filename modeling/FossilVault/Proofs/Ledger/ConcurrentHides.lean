import FossilVault.Proofs.Crew
import FossilVault.Proofs.Ledger.Moves
/-
**Hides at the same time.** A hide lists a name and then puts a marker on it if it is not hidden. Nothing
keeps other workers from listing it in between, so a name gets one marker for each worker that listed it
before the first marker was put on it, and it takes as many moves back to show it again.

* `Ledger.Hider` — the stages of a worker that hides a name;
* `Ledger.Midway`, `Ledger.Midway.turn` — what holds between two calls, whoever makes the next one;
* `Ledger.concurrent_hides` — what any number of workers leave, however their calls interleave.
-/

namespace FossilVault.Ledger

/-- The listings among the calls, the latest first, that no hide came before. -/
def earlyListings : List Remote.Call → Nat
  | [] => 0
  | c :: before =>
    earlyListings before + if c.verb = .list ∧ ∀ earlier ∈ before, earlier.verb ≠ .hide then 1 else 0

/-- Workers on a ledger whose calls are recorded. -/
abbrev Team : Type := Crew Remote.interface (Watched Remote.interface Ledger) Answer

/-! ### The stages of a hide -/

/-- How far a worker is that hides a name. -/
inductive Stage
  /-- It has not listed the name. -/
  | fresh
  /-- It has listed the name as active and will put a marker on it. -/
  | armed
  /-- It has put a marker on the name. -/
  | hid
  /-- It has listed the name as hidden and leaves it alone. -/
  | spared
  deriving DecidableEq

/-- The worker listed the name as active. -/
def Stage.early : Stage → Bool
  | .armed | .hid => true
  | .fresh | .spared => false

/-- What is left of the program of a worker that hides a name. -/
inductive Hider (vault : Vault) (name : String) : Stage → Program Remote.interface Answer → Prop
  | fresh {program : Program Remote.interface Answer} (worker : Int)
      (whole : program = vault.perform (.move worker name (Fossil.fossilOf name))) :
      Hider vault name .fresh program
  | armed {worker : Int} {next : Except Fault String → Program Remote.interface Answer}
      (rest : ∀ marker, (next (.ok marker)).Quiet .done) :
      Hider vault name .armed (.call (.hide worker name) next)
  | hid {program : Program Remote.interface Answer} (rest : program.Quiet .done) :
      Hider vault name .hid program
  | spared {program : Program Remote.interface Answer} (rest : program.Quiet .done) :
      Hider vault name .spared program

/-- The stage that a listing of the name leads to. -/
def Stage.listed (name : String) (ledger : Ledger) : Stage :=
  if (ledger.history name).head?.any (!·.isHidden) then .armed else .spared

/-- What a worker that hides a name can do in one turn. -/
inductive Stage.Step (name : String) (watched : Watched Remote.interface Ledger) :
    Stage → Stage → Watched Remote.interface Ledger → Prop
  | list (worker : Int) :
      Step name watched .fresh (.listed name watched.world)
        ⟨watched.world, .list worker name true true :: watched.calls⟩
  | hide (worker : Int) :
      Step name watched .armed .hid
        ⟨watched.world.push name none, .hide worker name :: watched.calls⟩
  | rest {stage : Stage} (called : stage = .hid ∨ stage = .spared) : Step name watched stage stage watched

variable {vault : Vault} {name : String} {program : Program Remote.interface Answer} {stage : Stage}

/-- The listing of a hide decides whether a marker is put on the name. -/
theorem Hider.listed (vault : Vault) (name : String) (worker : Int) (ledger : Ledger) :
    ∃ next, Vault.hide worker name = .call (.list worker name true true) next ∧
      Hider vault name (.listed name ledger)
        ((next (.ok (ledger.entries name true true))).bind fun _ => .done .done) := by
  refine ⟨_, rfl, ?_⟩
  simp only [Program.ofExcept, Program.bind, stateOf_entries, Stage.listed]
  rcases ledger.history name with - | ⟨⟨id, - | content⟩, older⟩
  · exact .spared (.look fun _ => .keep .done)
  · exact .spared (.look fun _ => .keep .done)
  · exact .armed fun _ => .look fun _ => .keep .done

/-- **A turn of a worker that hides a name** lists the name, puts a marker on it or leaves it alone. -/
theorem Hider.advance (bare : Fossil.isFossil name = false) (hider : Hider vault name stage program)
    (session : Session) (watched : Watched Remote.interface Ledger) :
    ∃ stage' program' session' watched',
      program.advance answer.recorded session watched = (program', session', watched') ∧
        Hider vault name stage' program' ∧ stage.Step name watched stage' watched' := by
  cases hider with
  | fresh worker whole =>
    obtain ⟨next, first, then_listed⟩ := Hider.listed vault name worker watched.world
    have called : program = .call (.list worker name true true) fun answer =>
        (next answer).bind fun _ => .done .done := by
      rw [whole, Vault.perform, Vault.move_there worker bare, first]
      rfl
    subst called
    exact ⟨_, _, session, _, rfl, then_listed, .list worker⟩
  | armed rest =>
    exact ⟨_, _, session, _, rfl, .hid (rest _), .hide _⟩
  | hid rest =>
    obtain ⟨session', ended⟩ := rest.advance session watched
    exact ⟨_, _, _, _, ended, .hid .done, .rest (.inl rfl)⟩
  | spared rest =>
    obtain ⟨session', ended⟩ := rest.advance session watched
    exact ⟨_, _, _, _, ended, .spared .done, .rest (.inr rfl)⟩

/-! ### Between two calls -/

/-- The ledger as it was, but for markers that were put on a name. -/
structure Marked (name : String) (before : Ledger) (markers : List Version) (ledger : Ledger) : Prop where
  sound : ledger.Sound
  stack : ledger.history name = markers ++ before.history name
  hidden : ∀ marker ∈ markers, marker.isHidden = true
  others : ∀ other, other ≠ name → ledger.history other = before.history other

theorem Marked.hide {before ledger : Ledger} {markers : List Version}
    (marked : Marked name before markers ledger) :
    Marked name before (⟨identifier (ledger.issued + 1), none⟩ :: markers) (ledger.push name none) where
  sound := marked.sound.push name none
  stack := by
    rw [history_push, if_pos rfl, marked.stack]
    rfl
  hidden marker among := by
    rcases List.mem_cons.mp among with rfl | among
    · rfl
    · exact marked.hidden marker among
  others other different := by
    rw [history_push, if_neg different, marked.others other different]

/-- What a stage counts for changes with the stage of one worker. -/
theorem countP_set {stages : List Stage} {index : Nat} {old : Stage}
    (at_index : stages[index]? = some old) (counts : Stage → Bool) (new : Stage) :
    (stages.set index new).countP counts + (if counts old then 1 else 0) =
      stages.countP counts + if counts new then 1 else 0 := by
  obtain ⟨within, rfl⟩ := List.getElem?_eq_some_iff.mp at_index
  have counted : (if counts stages[index] then 1 else 0) ≤ stages.countP counts :=
    List.boole_getElem_le_countP within
  rw [List.countP_set within]
  omega

/-- The account of the calls so far: as many listings came before the first hide as workers listed the
name as active, and as many markers were put on it as workers have hidden it. -/
structure Tally (name : String) (before : Ledger) (stages : List Stage) (markers : List Version)
    (watched : Watched Remote.interface Ledger) : Prop where
  marked : Marked name before markers watched.world
  early : stages.countP Stage.early = earlyListings watched.calls
  hid : stages.countP (· == .hid) = markers.length
  unhidden : markers = [] ↔ ∀ c ∈ watched.calls, c.verb ≠ .hide
  spared : .spared ∈ stages → markers ≠ []

/-- What holds between two calls: every worker is at its stage, and the stages account for the calls. -/
structure Midway (vault : Vault) (name : String) (before : Ledger) (stages : List Stage)
    (markers : List Version) (crew : Team) : Prop where
  members : stages.length = crew.members.length
  stands (index : Nat) (stage : Stage) (member : Program Remote.interface Answer × Session) :
    stages[index]? = some stage → crew.members[index]? = some member → Hider vault name stage member.1
  tally : Tally name before stages markers crew.world

variable {before : Ledger} {stages : List Stage} {markers : List Version} {crew : Team} {index : Nat}

/-- A worker goes on to its next stage. -/
theorem Midway.stands_put (midway : Midway vault name before stages markers crew) (session : Session)
    (stands : Hider vault name stage program) (place : Nat) (stage' : Stage)
    (member : Program Remote.interface Answer × Session)
    (staged : (stages.set index stage)[place]? = some stage')
    (somebody : (crew.put index program session).members[place]? = some member) :
    Hider vault name stage' member.1 := by
  simp only [Crew.put, List.getElem?_set] at staged somebody
  by_cases same : index = place
  · rw [if_pos same] at staged somebody
    by_cases within : index < crew.members.length
    · rw [if_pos (midway.members ▸ within)] at staged
      rw [if_pos within] at somebody
      cases staged
      cases somebody
      exact stands
    · rw [if_neg within] at somebody
      cases somebody
  · rw [if_neg same] at staged somebody
    exact midway.stands place stage' member staged somebody

section Turns

variable {top : Version} {older : List Version} (stacked : before.history name = top :: older)
  (active : top.isHidden = false)

include stacked active

/-- A listing shows the name as active as long as it has no marker. -/
theorem Marked.listed {ledger : Ledger} (marked : Marked name before markers ledger) :
    Stage.listed name ledger = if markers = [] then .armed else .spared := by
  rw [Stage.listed, marked.stack, stacked]
  cases markers with
  | nil => simp [active]
  | cons marker rest => simp [marked.hidden marker (.head _)]

/-- **A turn keeps the account.** -/
theorem Tally.step {stage stage' : Stage} {watched watched' : Watched Remote.interface Ledger}
    (tally : Tally name before stages markers watched) (staged : stages[index]? = some stage)
    (step : stage.Step name watched stage' watched') :
    ∃ markers', Tally name before (stages.set index stage') markers' watched' := by
  have early := countP_set staged Stage.early stage'
  have hid := countP_set staged (· == .hid) stage'
  rw [tally.early] at early
  rw [tally.hid] at hid
  cases step with
  | list worker =>
    have unhidden : markers = [] ↔
        ∀ c ∈ Remote.Call.list worker name true true :: watched.calls, c.verb ≠ .hide := by
      simp [tally.unhidden, Remote.Call.verb]
    rw [tally.marked.listed stacked active] at early hid ⊢
    -- Without a marker no hide was called, so the listing is an early one; with a marker it is not.
    by_cases bare : markers = []
    · rw [if_pos bare] at early hid ⊢
      refine ⟨markers, tally.marked, ?_, hid, unhidden, ?_⟩
      · rw [earlyListings, if_pos ⟨rfl, tally.unhidden.mp bare⟩]
        exact early
      · intro spared
        rcases List.mem_or_eq_of_mem_set spared with spared | other
        · exact tally.spared spared
        · cases other
    · rw [if_neg bare] at early hid ⊢
      refine ⟨markers, tally.marked, ?_, hid, unhidden, fun _ => bare⟩
      rw [earlyListings, if_neg fun first => bare (tally.unhidden.mpr first.2)]
      exact early
  | hide worker =>
    refine ⟨_, tally.marked.hide, ?_, ?_, ?_, fun _ => List.cons_ne_nil _ _⟩
    · rw [earlyListings, if_neg fun first => nomatch first.1]
      exact Nat.add_right_cancel early
    · exact hid
    · simp [Remote.Call.verb]
  | rest called =>
    refine ⟨markers, tally.marked, Nat.add_right_cancel early, Nat.add_right_cancel hid,
      tally.unhidden, ?_⟩
    intro spared
    rcases List.mem_or_eq_of_mem_set spared with spared | same
    · exact tally.spared spared
    · exact tally.spared (same ▸ List.mem_of_getElem? staged)

/-- **Whoever makes the next call**, the workers stand at their stages and the account is kept. -/
theorem Midway.turn (bare : Fossil.isFossil name = false)
    (midway : Midway vault name before stages markers crew) (index : Nat) :
    ∃ stages' markers', Midway vault name before stages' markers' (crew.turn answer.recorded index) := by
  cases somebody : crew.members[index]? with
  | none =>
    rw [Crew.turn_of_none somebody]
    exact ⟨stages, markers, midway⟩
  | some member =>
    obtain ⟨program, session⟩ := member
    have within : index < stages.length := midway.members ▸ (List.getElem?_eq_some_iff.mp somebody).1
    have staged : stages[index]? = some stages[index] := List.getElem?_eq_getElem within
    obtain ⟨stage', program', session', watched', advanced, stands, step⟩ :=
      (midway.stands index _ _ staged somebody).advance bare session crew.world
    obtain ⟨markers', tally⟩ := midway.tally.step stacked active staged step
    have members : (stages.set index stage').length =
        (crew.members.set index (program', session')).length := by
      rw [List.length_set, List.length_set, midway.members]
    rw [Crew.turn_of_some somebody, advanced]
    exact ⟨stages.set index stage', markers', members, midway.stands_put session' stands, tally⟩

end Turns

/-! ### The end -/

theorem Hider.finished (bare : Fossil.isFossil name = false) (hider : Hider vault name stage program)
    {outcome : Except Fault Answer} (ended : program.outcome = some outcome) :
    outcome = .ok .done ∧ (stage = .hid ∨ stage = .spared) := by
  cases hider with
  | fresh worker whole =>
    rw [whole, Vault.perform, Vault.move_there worker bare] at ended
    cases ended
  | armed rest => cases ended
  | hid rest => exact ⟨rest.outcome ended, .inl rfl⟩
  | spared rest => exact ⟨rest.outcome ended, .inr rfl⟩

theorem midway_start (vault : Vault) {ledger : Ledger} (sound : ledger.Sound) (name : String)
    (workers : List (Int × Session)) :
    Midway vault name ledger (workers.map fun _ => .fresh) []
      (vault.crew (workers.map fun (worker, session) =>
        (.move worker name (Fossil.fossilOf name), session)) ⟨ledger, []⟩) where
  members := by
    rw [Vault.crew, List.length_map, List.length_map, List.length_map]
  stands index stage member staged somebody := by
    simp only [Vault.crew, List.getElem?_map, Option.map_map, Option.map_eq_some_iff] at staged somebody
    obtain ⟨_, _, rfl⟩ := staged
    obtain ⟨⟨worker, session⟩, _, rfl⟩ := somebody
    exact .fresh worker rfl
  tally := {
    marked := {
      sound
      stack := rfl
      hidden := fun _ among => nomatch among
      others := fun _ _ => rfl }
    early := by
      rw [List.countP_map]
      exact List.countP_eq_zero.mpr fun _ _ => Bool.false_ne_true
    hid := by
      rw [List.countP_map]
      exact List.countP_eq_zero.mpr fun _ _ => Bool.false_ne_true
    unhidden := iff_of_true rfl fun _ among => nomatch among
    spared := by simp }

/-- When all workers are done, each ended well and has put a marker on the name or left it alone. -/
theorem Midway.finished (midway : Midway vault name before stages markers crew)
    (bare : Fossil.isFossil name = false) (finished : crew.Finished) :
    (∀ member ∈ crew.members, member.1.outcome = some (.ok .done)) ∧
      ∀ stage ∈ stages, stage = .hid ∨ stage = .spared := by
  have ends (index : Nat) (inStages : index < stages.length) (inCrew : index < crew.members.length) :
      crew.members[index].1.outcome = some (.ok .done) ∧
        (stages[index] = .hid ∨ stages[index] = .spared) := by
    have hider := midway.stands index _ _ (List.getElem?_eq_getElem inStages)
      (List.getElem?_eq_getElem inCrew)
    obtain ⟨outcome, made⟩ := Option.isSome_iff_exists.mp (finished _ (List.getElem_mem inCrew))
    obtain ⟨rfl, last⟩ := hider.finished bare made
    exact ⟨made, last⟩
  constructor
  · intro member among
    obtain ⟨index, within, rfl⟩ := List.mem_iff_getElem.mp among
    exact (ends index (midway.members ▸ within) within).1
  · intro stage among
    obtain ⟨index, within, rfl⟩ := List.mem_iff_getElem.mp among
    exact (ends index within (midway.members ▸ within)).2

/-- **Workers that hide a name at the same time** can always come to an end, and leave one marker on the
name for each that listed it before the first marker was put on it. They change no other name, and it
takes as many moves back as there are markers to show the name. -/
theorem concurrent_hides (vault : Vault) {ledger : Ledger} (sound : ledger.Sound) {name : String}
    (bare : Fossil.isFossil name = false) {top : Version} {older : List Version}
    (stacked : ledger.history name = top :: older) (active : top.isHidden = false)
    (workers : List (Int × Session)) (schedule : List Nat) :
    let asked := workers.map fun (worker, session) =>
      (Operation.move worker name (Fossil.fossilOf name), session)
    let ended := (vault.crew asked ⟨ledger, []⟩).run answer.recorded schedule
    let left := ended.world.world
    let count := earlyListings ended.world.calls
    (∃ rest, (ended.run answer.recorded rest).Finished) ∧ (ended.Finished →
      (∀ member ∈ ended.members, member.1.outcome = some (.ok .done)) ∧
      (∃ markers : List Version, markers.length = count ∧
        (∀ marker ∈ markers, marker.isHidden = true) ∧ left.history name = markers ++ top :: older) ∧
      (∀ other, other ≠ name → left.history other = ledger.history other) ∧
      count ≤ workers.length ∧ (workers ≠ [] → 1 ≤ count) ∧
      ∀ (backs : List Int) (session : Session) (viewer : Int) (look : Session),
        (∃ size, (vault.after answer (backs.map fun worker => .move worker (Fossil.fossilOf name) name)
          (session, left)).2.Finds vault viewer look name size) ↔ count ≤ backs.length) := by
  intro asked ended left count
  refine ⟨Crew.exists_finished answer.recorded ended, ?_⟩
  intro finished
  have start : Midway vault name ledger (workers.map fun _ => .fresh) []
      (vault.crew asked ⟨ledger, []⟩) := midway_start vault sound name workers
  have step (crew : Team) (index : Nat) :
      (∃ stages markers, Midway vault name ledger stages markers crew) →
        ∃ stages markers, Midway vault name ledger stages markers (crew.turn answer.recorded index) := by
    rintro ⟨stages, markers, midway⟩
    exact midway.turn stacked active bare index
  obtain ⟨stages, markers, midway⟩ : ∃ stages markers, Midway vault name ledger stages markers ended :=
    Crew.run_preserves step schedule ⟨_, _, start⟩
  obtain ⟨ends, last⟩ := midway.finished bare finished
  have length : stages.length = workers.length := by
    rw [midway.members, Crew.length_members_run, ← start.members, List.length_map]
  have early : stages.countP Stage.early = count := midway.tally.early
  -- At the end every worker that listed the name as active has put its marker.
  have counted : markers.length = count := by
    rw [← midway.tally.hid, ← early]
    refine List.countP_congr ?_
    intro stage among
    rcases last stage among with rfl | rfl <;> decide
  have hidden := midway.tally.marked.hidden
  have stack : left.history name = markers ++ top :: older := stacked ▸ midway.tally.marked.stack
  refine ⟨ends, ⟨markers, counted, hidden, stack⟩, midway.tally.marked.others, ?_, ?_, ?_⟩
  · rw [← length, ← early]
    exact List.countP_le_length
  · intro some
    obtain ⟨stage, among⟩ := List.exists_mem_of_length_pos (show 0 < stages.length by
      rw [length]
      exact List.length_pos_iff.mpr some)
    rcases last stage among with rfl | rfl
    · rw [← early]
      exact List.countP_pos_iff.mpr ⟨_, among, rfl⟩
    · rw [← counted]
      exact List.length_pos_iff.mpr (midway.tally.spared among)
  · intro backs session viewer look
    have shown := history_unhides hidden active backs stack
    have run := (after_sound vault (backs.map fun worker => .move worker (Fossil.fossilOf name) name)
      session midway.tally.marked.sound).1
    rw [run, exists_finds_iff bare, shown, ← counted, ← List.drop_eq_nil_iff]
    cases rest : markers.drop backs.length with
    | nil => simp [active]
    | cons marker others => simp [hidden marker (List.mem_of_mem_drop (rest ▸ List.mem_cons_self))]

/-- Two workers that both list the name before either puts a marker on it leave two markers. -/
theorem concurrent_hides_two :
    let ledger := (Vault.after {} answer [.upload 0 "n" [120]] ({}, {})).2
    let asked := [(0, ({} : Session)), (1, {})].map fun (worker, session) =>
      (Operation.move worker "n" (Fossil.fossilOf "n"), session)
    let ended := (Vault.crew {} asked ⟨ledger, []⟩).run answer.recorded [0, 1, 0, 1, 0, 1]
    ledger.Sound ∧ Fossil.isFossil "n" = false ∧ ledger.history "n" = [⟨"v1", some [120]⟩] ∧
      ended.Finished ∧ earlyListings ended.world.calls = 2 ∧
      ∃ markers : List Version, markers.length = 2 ∧
        (∀ marker ∈ markers, marker.isHidden = true) ∧
        ended.world.world.history "n" = markers ++ [⟨"v1", some [120]⟩] := by
  intro ledger asked ended
  have sound : ledger.Sound := sound_after {} _ {}
  have bare : Fossil.isFossil "n" = false := by decide
  have stacked : ledger.history "n" = ⟨"v1", some [120]⟩ :: [] := by decide +kernel
  have finished : ended.Finished := by decide +kernel
  have counted : earlyListings ended.world.calls = 2 := by decide +kernel
  obtain ⟨-, left⟩ :=
    concurrent_hides {} sound bare stacked rfl [(0, {}), (1, {})] [0, 1, 0, 1, 0, 1]
  obtain ⟨-, ⟨markers, length, hidden, stack⟩, -⟩ := left finished
  exact ⟨sound, bare, stacked, finished, counted, markers, length.trans counted, hidden, stack⟩

/-- **Two workers at the same time put two markers on a name**, and one move back does not show it. -/
theorem hides_stack_markers :
    let ledger := (Vault.after {} answer [.upload 0 "n" [120]] ({}, {})).2
    let asked := [(Operation.move 0 "n" "n.fsl", ({} : Session)), (.move 1 "n" "n.fsl", {})]
    let ended := (Vault.crew {} asked ⟨ledger, []⟩).run answer.recorded [0, 1, 0, 1, 0, 1]
    let left := ended.world.world
    ended.Finished ∧
      left.history "n" = [⟨"v3", none⟩, ⟨"v2", none⟩, ⟨"v1", some [120]⟩] ∧
      (Vault.after {} answer [.move 0 "n.fsl" "n"] ({}, left)).2.Misses {} 0 {} "n" := by
  intro ledger asked ended left
  refine ⟨by decide +kernel, by decide +kernel, ?_⟩
  rw [misses_iff]
  decide +kernel

end FossilVault.Ledger
