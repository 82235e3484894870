import FossilVault.Proofs.Calls
import FossilVault.Proofs.Crew
/-
**Turns.** What a turn of one member does to the others, and what all turns of a member come to: nobody
else changes what is left of its program, and its turns one after the other are its program.

* `Program.Only.advance` — a turn of a program that makes only allowed calls makes one of them, or none;
* `Program.run_advance` — a turn takes nothing away from a program's end;
* `Crew.members_run_of_notMem`, `Crew.Confined.run` — what is left of a member's program after a schedule;
* `Crew.exists_schedule_inTurn`, `Crew.ended_inTurn` — members that go one after the other.
-/

namespace FossilVault

variable {I : Interface} {ω α : Type}

theorem Handler.recorded_eq (h : Handler I ω) (c : I.Call) (session : Session) (watched : Watched I ω) :
    h.recorded c session watched =
      ((h c session watched.world).1, (h c session watched.world).2.1,
        ⟨(h c session watched.world).2.2, c :: watched.calls⟩) :=
  Handler.watched_of_none rfl

namespace Program

/-- **One turn of a program** that makes only allowed calls takes it to its end without a call, or makes
one of them. Which of the two does not depend on the remote. -/
theorem Only.advance {allowed : I.Call → Prop} {program : Program I α} (only : program.Only allowed)
    (session : Session) :
    (∃ program' session', program'.outcome.isSome = true ∧ program'.Only allowed ∧
      ∀ {ω : Type} (h : Handler I ω) (world : ω),
        program.advance h session world = (program', session', world)) ∨
    ∃ c session', ∃ next : Except Fault (I.Reply c) → Program I α,
      allowed c ∧ (∀ answer, (next answer).Only allowed) ∧
        ∀ {ω : Type} (h : Handler I ω) (world : ω), program.advance h session world =
          (next (h c session' world).1, (h c session' world).2.1, (h c session' world).2.2) := by
  induction only generalizing session with
  | done value => exact .inl ⟨.done value, session, rfl, .done value, fun _ _ => rfl⟩
  | fail fault => exact .inl ⟨.fail fault, session, rfl, .fail fault, fun _ _ => rfl⟩
  | look _ ih => exact ih session session
  | keep kept _ ih => exact ih kept
  | call permitted rest _ => exact .inr ⟨_, session, _, permitted, rest, fun _ _ => rfl⟩

/-- **A turn takes nothing away**: what is left runs to the end of the whole. -/
theorem run_advance (h : Handler I ω) (program : Program I α) (session : Session) (world : ω) :
    (program.advance h session world).1.run h (program.advance h session world).2.1
      (program.advance h session world).2.2 = program.run h session world := by
  induction program generalizing session world with
  | done value => rfl
  | fail fault => rfl
  | look next ih => exact ih session session world
  | keep kept next ih => exact ih kept world
  | call c next _ => rfl

/-- A program that has yet to list is not at its end. -/
theorem Heeds.outcome {worker : Int} {name : String} {program : Program Remote.interface α}
    (heeds : program.Heeds worker name) : program.outcome = none := by
  obtain ⟨next, rfl, _⟩ := heeds
  rfl

end Program

theorem Remote.advance_ask (h : Handler Remote.interface ω) (c : Remote.Call)
    (next : Remote.Reply c → Program Remote.interface α) (session : Session) (world : ω) :
    (Remote.ask c >>= next).advance h session world =
      (Program.ofExcept (h c session world).1 >>= next, (h c session world).2.1,
        (h c session world).2.2) := rfl

namespace Crew

variable {h : Handler I ω} {crew : Crew I ω α} {index other : Nat} {program : Program I α}
  {session : Session}

theorem members_turn_of_ne (different : index ≠ other) :
    (crew.turn h index).members[other]? = crew.members[other]? := by
  cases somebody : crew.members[index]? with
  | none => rw [turn_of_none somebody]
  | some member =>
    rw [turn_of_some somebody]
    exact List.getElem?_set_ne different

theorem members_turn_self (somebody : crew.members[index]? = some (program, session)) :
    (crew.turn h index).members[index]? =
      some ((program.advance h session crew.world).1, (program.advance h session crew.world).2.1) := by
  rw [turn_of_some somebody]
  exact List.getElem?_set_self (List.getElem?_eq_some_iff.mp somebody).1

theorem run_cons (h : Handler I ω) (index : Nat) (rest : List Nat) (crew : Crew I ω α) :
    crew.run h (index :: rest) = (crew.turn h index).run h rest := rfl

theorem run_concat (h : Handler I ω) (schedule : List Nat) (index : Nat) (crew : Crew I ω α) :
    crew.run h (schedule ++ [index]) = (crew.run h schedule).turn h index :=
  run_append h schedule [index] crew

/-- How a member ended, once it has. -/
def ending (crew : Crew I ω α) (index : Nat) : Option (Except Fault α) :=
  crew.members[index]?.bind fun member => member.1.outcome

/-- Who has no turn stays as he was. -/
theorem members_run_of_notMem {schedule : List Nat} (absent : index ∉ schedule) :
    (crew.run h schedule).members[index]? = crew.members[index]? := by
  induction schedule generalizing crew with
  | nil => rfl
  | cons first rest ih =>
    have different : first ≠ index := fun same => absent (same ▸ .head _)
    rw [run_cons, ih fun later => absent (.tail _ later), members_turn_of_ne different]

/-- Who was not at his end and is has had a turn. -/
theorem mem_of_finished {schedule : List Nat} (somebody : crew.members[index]? = some (program, session))
    (unfinished : program.outcome = none) (finished : (crew.run h schedule).Finished) :
    index ∈ schedule := by
  refine Decidable.by_contra fun absent => ?_
  have ended := finished _ (List.mem_of_getElem? ((members_run_of_notMem absent).trans somebody))
  rw [unfinished] at ended
  cases ended

/-- The calls that a member may make, among all that are left to it. -/
def Confined (crew : Crew I ω α) (index : Nat) (allowed : I.Call → Prop) : Prop :=
  ∀ member, crew.members[index]? = some member → member.1.Only allowed

theorem Confined.turn {allowed : I.Call → Prop} (confined : crew.Confined index allowed) (place : Nat) :
    (crew.turn h place).Confined index allowed := by
  intro member at_index
  by_cases same : place = index
  · subst same
    cases somebody : crew.members[place]? with
    | none =>
      rw [turn_of_none somebody] at at_index
      exact confined member at_index
    | some before =>
      rw [members_turn_self somebody] at at_index
      cases at_index
      rcases (confined _ somebody).advance before.2 with
        ⟨program', session', _, only, ran⟩ | ⟨c, session', next, _, rest, ran⟩
      · rw [ran]
        exact only
      · rw [ran]
        exact rest _
  · rw [members_turn_of_ne same] at at_index
    exact confined member at_index

/-- **A member makes no other calls than those that were left to it.** -/
theorem Confined.run {allowed : I.Call → Prop} (confined : crew.Confined index allowed)
    (schedule : List Nat) : (crew.run h schedule).Confined index allowed := by
  induction schedule generalizing crew with
  | nil => exact confined
  | cons place rest ih => exact ih (confined.turn place)

/-! ### One member after the other -/

/-- A member goes through all that is left of its program, and nobody else has a turn meanwhile. -/
def finish (h : Handler I ω) (crew : Crew I ω α) (index : Nat) : Crew I ω α :=
  match crew.members[index]? with
  | none => crew
  | some (program, session) =>
    let ended := program.run h session crew.world
    { crew.put index (Program.ofExcept ended.1) ended.2.1 with world := ended.2.2 }

/-- The members go through their programs one after the other, in this order. -/
def inTurn (h : Handler I ω) (order : List Nat) (crew : Crew I ω α) : Crew I ω α :=
  order.foldl (finish h) crew

theorem finish_of_none (nobody : crew.members[index]? = none) : crew.finish h index = crew := by
  rw [finish, nobody]

theorem finish_of_some (somebody : crew.members[index]? = some (program, session)) :
    crew.finish h index =
      let ended := program.run h session crew.world
      { crew.put index (Program.ofExcept ended.1) ended.2.1 with world := ended.2.2 } := by
  rw [finish, somebody]

/-- **To go one after the other is to follow a schedule.** -/
theorem exists_schedule_inTurn (h : Handler I ω) (order : List Nat) (crew : Crew I ω α) :
    ∃ schedule, crew.inTurn h order = crew.run h schedule := by
  induction order generalizing crew with
  | nil => exact ⟨[], rfl⟩
  | cons index rest ih =>
    obtain ⟨later, after⟩ := ih (crew.finish h index)
    cases somebody : crew.members[index]? with
    | none =>
      rw [finish_of_none somebody] at after
      exact ⟨later, (congrArg (inTurn h rest) (finish_of_none somebody)).trans after⟩
    | some member =>
      obtain ⟨program, session⟩ := member
      obtain ⟨count, ran⟩ := run_alone h (List.getElem?_eq_some_iff.mp somebody).1 program session
      rw [put_self somebody, ← finish_of_some somebody] at ran
      refine ⟨List.replicate (count + 1) index ++ later, ?_⟩
      rw [run_append, ran]
      exact after

/-- A member that is at its end stays there. -/
theorem ended_finish (place : Nat)
    (ended : ∀ member, crew.members[index]? = some member → member.1.outcome.isSome = true) :
    ∀ member, (crew.finish h place).members[index]? = some member → member.1.outcome.isSome = true := by
  cases somebody : crew.members[place]? with
  | none =>
    rw [finish_of_none somebody]
    exact ended
  | some member =>
    obtain ⟨program, session⟩ := member
    rw [finish_of_some somebody]
    intro member at_index
    simp only [put, List.getElem?_set] at at_index
    by_cases same : place = index
    · rw [if_pos same] at at_index
      split at at_index <;> cases at_index
      rw [Program.outcome_ofExcept]
      rfl
    · rw [if_neg same] at at_index
      exact ended member at_index

theorem ended_inTurn {order : List Nat}
    (ended : index ∈ order ∨
      ∀ member, crew.members[index]? = some member → member.1.outcome.isSome = true) :
    ∀ member, (crew.inTurn h order).members[index]? = some member → member.1.outcome.isSome = true := by
  induction order generalizing crew with
  | nil => exact ended.resolve_left List.not_mem_nil
  | cons place rest ih =>
    refine ih ?_
    rcases ended with among | ended
    · rcases List.mem_cons.mp among with rfl | later
      · refine .inr ?_
        cases somebody : crew.members[index]? with
        | none =>
          rw [finish_of_none somebody]
          intro member at_index
          cases somebody.symm.trans at_index
        | some member =>
          obtain ⟨program, session⟩ := member
          rw [finish_of_some somebody]
          intro member at_index
          cases (List.getElem?_set_self (List.getElem?_eq_some_iff.mp somebody).1).symm.trans at_index
          rw [Program.outcome_ofExcept]
          rfl
      · exact .inl later
    · exact .inr (ended_finish place ended)

end Crew

/-! ### Crews of a vault -/

namespace Vault

variable {asked : List (Operation × Session)} {index : Nat}

theorem members_crew_of_some (vault : Vault) (world : ω) {operation : Operation} {session : Session}
    (asked_it : asked[index]? = some (operation, session)) :
    (vault.crew asked world).members[index]? = some (vault.perform operation, session) := by
  rw [crew, List.getElem?_map, asked_it]
  rfl

theorem members_crew_of_none (vault : Vault) (world : ω) (nobody : asked[index]? = none) :
    (vault.crew asked world).members[index]? = none := by
  rw [crew, List.getElem?_map, nobody]
  rfl

/-- A worker makes the calls of his operation. -/
theorem confined_crew (vault : Vault) (world : ω) {operation : Operation} {session : Session}
    (asked_it : asked[index]? = some (operation, session)) :
    (vault.crew asked world).Confined index operation.Makes := by
  intro member at_index
  rw [members_crew_of_some vault world asked_it] at at_index
  cases at_index
  exact vault.only_perform operation

end Vault

end FossilVault
