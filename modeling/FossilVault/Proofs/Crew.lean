import FossilVault.Proofs.Operation
/-
**Crews.** Several workers use one remote at the same time and without a lock. Each goes through its own
program with a session of its own; a call is one step on the remote that all of them share, and nothing
orders the calls of different workers. A schedule says whose turn it is, so what holds of every schedule
holds however the calls interleave.

* `Program.advance` — what a program does in one turn: its steps up to its next call, with that call;
* `Crew.turn`, `Crew.run` — a turn of one member, and the turns of a schedule;
* `Crew.run_preserves` — what every turn preserves holds after every schedule;
* `Crew.run_alone` — a member that has all turns to itself runs its program;
* `Crew.exists_finished` — the members of every crew can all come to their ends, whatever was done.
-/

namespace FossilVault

variable {I : Interface} {ω α : Type}

/-- Records every call and lets each do what it does. -/
def Handler.recorded (h : Handler I ω) : Handler I (Watched I ω) :=
  h.watched (fun _ => ()) fun _ _ => none

namespace Program

/-- Goes on up to the next call and makes it, or to the end. -/
def advance (h : Handler I ω) : Program I α → Session → ω → Program I α × Session × ω
  | .done value, session, world => (.done value, session, world)
  | .fail fault, session, world => (.fail fault, session, world)
  | .look next, session, world => (next session).advance h session world
  | .keep session next, _, world => next.advance h session world
  | .call c next, session, world =>
    let answered := h c session world
    (next answered.1, answered.2.1, answered.2.2)

/-- How a program ended, once it has. -/
def outcome : Program I α → Option (Except Fault α)
  | .done value => some (.ok value)
  | .fail fault => some (.error fault)
  | .look _ | .keep _ _ | .call _ _ => none

@[simp] theorem outcome_ofExcept (outcome : Except Fault α) :
    (ofExcept outcome : Program I α).outcome = some outcome := by
  cases outcome <;> rfl

/-- The program makes no call any more and ends with this value. -/
inductive Quiet (value : α) : Program I α → Prop
  | done : Quiet value (.done value)
  | look {next : Session → Program I α} (rest : ∀ session, Quiet value (next session)) :
      Quiet value (.look next)
  | keep {session : Session} {next : Program I α} (rest : Quiet value next) :
      Quiet value (.keep session next)

variable {h : Handler I ω} {program : Program I α} {session : Session} {world : ω} {value : α}

/-- A program without calls ends in its next turn and leaves the remote alone. -/
theorem Quiet.advance (quiet : program.Quiet value) (session : Session) (world : ω) :
    ∃ session', program.advance h session world = (.done value, session', world) := by
  induction quiet generalizing session with
  | done => exact ⟨session, rfl⟩
  | look _ ih => exact ih session session
  | keep _ ih => exact ih _

theorem Quiet.outcome {outcome : Except Fault α} (quiet : program.Quiet value)
    (ended : program.outcome = some outcome) : outcome = .ok value := by
  cases quiet with
  | done => exact (Option.some.inj ended).symm
  | look | keep => cases ended

end Program

/-- Members with what is left of their programs and their sessions, and the remote they share. -/
structure Crew (I : Interface) (ω α : Type) where
  members : List (Program I α × Session)
  world : ω

namespace Crew

variable {h : Handler I ω} {crew : Crew I ω α} {index : Nat}

/-- The crew with a member at this point of a program. -/
def put (crew : Crew I ω α) (index : Nat) (program : Program I α) (session : Session) : Crew I ω α :=
  { crew with members := crew.members.set index (program, session) }

/-- The turn of a member; a number that is nobody's changes nothing. -/
def turn (h : Handler I ω) (crew : Crew I ω α) (index : Nat) : Crew I ω α :=
  match crew.members[index]? with
  | none => crew
  | some (program, session) =>
    let moved := program.advance h session crew.world
    { crew.put index moved.1 moved.2.1 with world := moved.2.2 }

/-- The turns of a schedule, one after the other. -/
def run (h : Handler I ω) (schedule : List Nat) (crew : Crew I ω α) : Crew I ω α :=
  schedule.foldl (turn h) crew

/-- All members are at their ends. -/
def Finished (crew : Crew I ω α) : Prop :=
  ∀ member ∈ crew.members, member.1.outcome.isSome = true

instance (crew : Crew I ω α) : Decidable crew.Finished :=
  inferInstanceAs (Decidable (∀ member ∈ crew.members, _))

theorem turn_of_none (nobody : crew.members[index]? = none) : crew.turn h index = crew := by
  rw [turn, nobody]

theorem turn_of_some {program : Program I α} {session : Session}
    (somebody : crew.members[index]? = some (program, session)) :
    crew.turn h index =
      let moved := program.advance h session crew.world
      { crew.put index moved.1 moved.2.1 with world := moved.2.2 } := by
  rw [turn, somebody]

theorem put_self {program : Program I α} {session : Session}
    (somebody : crew.members[index]? = some (program, session)) :
    crew.put index program session = crew := by
  obtain ⟨within, held⟩ := List.getElem?_eq_some_iff.mp somebody
  rw [put, ← held, List.set_getElem_self]

theorem run_append (h : Handler I ω) (schedule schedule' : List Nat) (crew : Crew I ω α) :
    crew.run h (schedule ++ schedule') = (crew.run h schedule).run h schedule' :=
  List.foldl_append

/-- **What every turn preserves holds after every schedule.** -/
theorem run_preserves {holds : Crew I ω α → Prop}
    (step : ∀ crew index, holds crew → holds (crew.turn h index)) (schedule : List Nat)
    (start : holds crew) : holds (crew.run h schedule) := by
  induction schedule generalizing crew with
  | nil => exact start
  | cons index rest ih => exact ih (step crew index start)

/-- Nobody joins or leaves. -/
theorem length_members_run (h : Handler I ω) (schedule : List Nat) (crew : Crew I ω α) :
    (crew.run h schedule).members.length = crew.members.length := by
  have step (crew' : Crew I ω α) (index : Nat)
      (same : crew'.members.length = crew.members.length) :
      (crew'.turn h index).members.length = crew.members.length := by
    cases somebody : crew'.members[index]? with
    | none => rwa [turn_of_none somebody]
    | some member =>
      rw [turn_of_some somebody]
      exact (List.length_set).trans same
  exact run_preserves step schedule rfl

theorem turn_put (within : index < crew.members.length) (program : Program I α) (session : Session) :
    (crew.put index program session).turn h index =
      let moved := program.advance h session crew.world
      { crew.put index moved.1 moved.2.1 with world := moved.2.2 } := by
  have somebody : (crew.put index program session).members[index]? = some (program, session) :=
    List.getElem?_set_self within
  rw [turn_of_some somebody]
  simp only [put, List.set_set]

/-- **A member that has all turns to itself runs its program.** -/
theorem run_alone (h : Handler I ω) (within : index < crew.members.length) (program : Program I α)
    (session : Session) :
    ∃ count, (crew.put index program session).run h (List.replicate (count + 1) index) =
      let ended := program.run h session crew.world
      { crew.put index (Program.ofExcept ended.1) ended.2.1 with world := ended.2.2 } := by
  induction program generalizing crew session with
  | done value => exact ⟨0, turn_put within (.done value) session⟩
  | fail fault => exact ⟨0, turn_put within (.fail fault) session⟩
  | look next ih =>
    obtain ⟨count, ran⟩ := ih session within session
    refine ⟨count, Eq.trans ?_ ran⟩
    rw [run, run, List.replicate_succ, List.foldl_cons, List.foldl_cons, turn_put within, turn_put within]
    rfl
  | keep kept next ih =>
    obtain ⟨count, ran⟩ := ih within kept
    refine ⟨count, Eq.trans ?_ ran⟩
    rw [run, run, List.replicate_succ, List.foldl_cons, List.foldl_cons, turn_put within, turn_put within]
    rfl
  | call c next ih =>
    let answered := h c session crew.world
    obtain ⟨count, ran⟩ := ih answered.1 (show index < { crew with world := answered.2.2 }.members.length
      from within) answered.2.1
    refine ⟨count + 1, Eq.trans ?_ ran⟩
    rw [run, run, List.replicate_succ, List.foldl_cons, turn_put within]
    rfl

/-- **No crew is ever stuck**: its members can all come to their ends. -/
theorem exists_finished (h : Handler I ω) (crew : Crew I ω α) :
    ∃ schedule, (crew.run h schedule).Finished := by
  -- One member after the other has all turns to itself.
  have upTo (count : Nat) : ∃ schedule, ∀ index, index < count → ∀ member,
      (crew.run h schedule).members[index]? = some member → member.1.outcome.isSome = true := by
    induction count with
    | zero => exact ⟨[], fun _ below => absurd below (Nat.not_lt_zero _)⟩
    | succ count ih =>
      obtain ⟨schedule, ended⟩ := ih
      cases somebody : (crew.run h schedule).members[count]? with
      | none =>
        refine ⟨schedule, ?_⟩
        intro index below member at_index
        rcases Nat.lt_succ_iff_lt_or_eq.mp below with below | rfl
        · exact ended index below member at_index
        · cases somebody.symm.trans at_index
      | some last =>
        obtain ⟨program, session⟩ := last
        have within := (List.getElem?_eq_some_iff.mp somebody).1
        obtain ⟨turns, ran⟩ := run_alone h within program session
        rw [put_self somebody] at ran
        refine ⟨schedule ++ List.replicate (turns + 1) count, ?_⟩
        rw [run_append, ran]
        intro index below member at_index
        simp only [put, List.getElem?_set] at at_index
        by_cases same : count = index
        · rw [if_pos same, if_pos within] at at_index
          cases at_index
          rw [Program.outcome_ofExcept]
          rfl
        · rw [if_neg same] at at_index
          exact ended index (by omega) member at_index
  obtain ⟨schedule, ended⟩ := upTo (crew.members.length)
  refine ⟨schedule, ?_⟩
  intro member among
  obtain ⟨index, within, rfl⟩ := List.mem_iff_getElem.mp among
  exact ended index (length_members_run h schedule crew ▸ within) _ (List.getElem?_eq_getElem within)

end Crew

/-- The crew of workers that each were asked for one operation. -/
def Vault.crew (vault : Vault) (asked : List (Operation × Session)) (world : ω) :
    Crew Remote.interface ω Answer where
  members := asked.map fun (operation, session) => (vault.perform operation, session)
  world

end FossilVault
