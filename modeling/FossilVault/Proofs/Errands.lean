import FossilVault.Proofs.Turns
/-
**Errands.** A worker that was asked for several operations does one after the other, whatever each of
them comes to, and reports on all. An operation that names a file touches one stored name, and none of its
calls is about another.

* `Operation.touched`, `Operation.Makes.about` — the name that an operation touches;
* `Vault.performAll`, `Vault.run_performAll` — a sequence of operations as one program;
* `Vault.only_performAll` — the calls of a sequence;
* `Vault.errands` — the crew of workers that each have a sequence to do.
-/

namespace FossilVault

/-! ### The name of an operation -/

/-- The stored name that an operation touches, if it names a file. -/
def Operation.touched : Operation → Option String
  | .upload _ path _ | .download _ path _ => some path
  | .move _ path _ | .delete _ path | .inspect _ path => some (Fossil.parse path).name
  | .list .. | .makeDirectory .. => none

/-- An operation touches the name that it changes. -/
theorem Operation.touched_of_change {operation : Operation} {name : String} {change : Change}
    (made : operation.change = some (name, change)) : operation.touched = some name := by
  cases operation with
  | upload worker path content => exact congrArg (Option.map Prod.fst) made
  | move worker source target =>
    simp only [Operation.change] at made
    split at made
    · rename_i back
      cases made
      rw [touched, back, Fossil.parse_fossilOf]
    · split at made
      · rename_i there
        cases made
        rw [touched, Fossil.parse_of_bare there.2]
      · cases made
  | delete worker path => exact congrArg (Option.map Prod.fst) made
  | download | inspect | list | makeDirectory => cases made

/-- The one name that a call is about. -/
def Remote.Call.about : Remote.Call → Option String
  | .list _ name true _ | .delete _ name _ | .hide _ name | .upload _ name _ _ | .download _ name =>
    some name
  | .authorize | .findBucket _ | .list _ _ false _ => none

/-- **All calls of an operation are about the name that it touches.** -/
theorem Operation.Makes.about {operation : Operation} {c : Remote.Call} (makes : operation.Makes c)
    {name : String} (touched : operation.touched = some name) : c.about = some name := by
  cases makes with
  | upload | download | examine | delete | inspect => exact touched
  | consider made | hide made | unhide made => exact (touched_of_change made).symm.trans touched
  | list => cases touched

/-! ### Sequences of operations -/

/-- What an operation came to, and what the destination held after it. -/
structure Report where
  outcome : Except Fault Answer
  received : Bytes

namespace Vault

variable {ω : Type}

/-- The program of several operations, one after the other, with a report on each. -/
def performAll (vault : Vault) : List Operation → Program Remote.interface (List Report)
  | [] => pure []
  | operation :: rest => do
    let outcome ← (vault.perform operation).attempt
    let received ← Program.within fun session => (.ok session.sink.data, session)
    let reports ← vault.performAll rest
    return ⟨outcome, received⟩ :: reports

/-- **A sequence goes on after each of its operations**, whatever that came to. -/
theorem run_performAll (vault : Vault) (h : Handler Remote.interface ω) (operation : Operation)
    (rest : List Operation) (session : Session) (world : ω) :
    (vault.performAll (operation :: rest)).run h session world =
      let ended := vault.step h (session, world) operation
      let later := (vault.performAll rest).run h ended.2.1 ended.2.2
      (later.1.map fun reports => ⟨ended.1, ended.2.1.sink.data⟩ :: reports, later.2.1, later.2.2) := by
  simp only [performAll, step, Program.run_bind, Program.run_attempt, Program.run_within]
  generalize (vault.performAll rest).run h _ _ = later
  obtain ⟨outcome, _, _⟩ := later
  cases outcome <;> rfl

/-- A sequence is reported on whole. -/
theorem performAll_reports (vault : Vault) (h : Handler Remote.interface ω) (operations : List Operation)
    (session : Session) (world : ω) :
    ∃ reports, ((vault.performAll operations).run h session world).1 = .ok reports ∧
      reports.length = operations.length := by
  induction operations generalizing session world with
  | nil => exact ⟨[], rfl, rfl⟩
  | cons operation rest ih =>
    let ended := vault.step h (session, world) operation
    obtain ⟨reports, later, whole⟩ := ih ended.2.1 ended.2.2
    refine ⟨⟨ended.1, ended.2.1.sink.data⟩ :: reports, ?_, congrArg Nat.succ whole⟩
    rw [run_performAll]
    exact congrArg (Except.map _) later

/-- A sequence makes the calls of its operations. -/
theorem only_performAll (vault : Vault) (operations : List Operation) :
    (vault.performAll operations).Only fun c => ∃ operation ∈ operations, operation.Makes c := by
  induction operations with
  | nil => exact .done []
  | cons operation rest ih =>
    have first : (vault.perform operation).Only fun c =>
        ∃ asked ∈ operation :: rest, asked.Makes c :=
      (vault.only_perform operation).mono fun c makes => ⟨operation, .head _, makes⟩
    refine first.attempt.bind fun _ => (Program.Only.within _).bind fun _ => ?_
    refine Program.Only.bind (ih.mono ?_) fun _ => .done _
    rintro c ⟨asked, among, makes⟩
    exact ⟨asked, .tail _ among, makes⟩

/-- The crew of workers that each were asked for a sequence of operations. -/
def errands (vault : Vault) (asked : List (List Operation × Session)) (world : ω) :
    Crew Remote.interface ω (List Report) where
  members := asked.map fun (operations, session) => (vault.performAll operations, session)
  world

theorem members_errands (vault : Vault) (asked : List (List Operation × Session)) (world : ω)
    (index : Nat) :
    (vault.errands asked world).members[index]? =
      asked[index]?.map fun worker => (vault.performAll worker.1, worker.2) :=
  List.getElem?_map

end Vault

end FossilVault
