import FossilVault.Proofs.Archive.Run
import FossilVault.Proofs.Ledger.Contract
/-
**A vault on a ledger is a machine of stacks.** Seven operations made of listings, deletions by
identifier and uploads come to at most one change of the stack of one name. Nothing else moves: not
the stacks of names that begin alike, nor those of names that end like a fossil, nor the count of
identifiers.

* `Ledger.act` — the machine;
* `Ledger.foldl_writes` — the writes of an operation are its change;
* `Ledger.step_act` — an operation leaves the ledger that the machine leaves;
* `Ledger.after_act` — the same of a run, with what a step leaves alone and what repeated deletions
  do.
-/

namespace FossilVault.Ledger

/-- A change of the stack of one name; a new version takes the next identifier. -/
def turn (name : String) (change : Change) (ledger : Ledger) : Ledger where
  names := ledger.names.turn Version.content (Version.mk (identifier (ledger.issued + 1))) name change
  issued := if change.grows Version.content (ledger.history name) then ledger.issued + 1 else ledger.issued

/-- The machine of stacks: an operation makes its change. -/
def act (ledger : Ledger) (operation : Operation) : Ledger :=
  match operation.change with
  | some (name, change) => ledger.turn name change
  | none => ledger

theorem history_turn (name : String) (change : Change) (ledger : Ledger) (other : String) :
    (ledger.turn name change).history other =
      if other = name then
        change.on Version.content (Version.mk (identifier (ledger.issued + 1))) (ledger.history name)
      else ledger.history other :=
  Catalog.history_turn _ _ name change ledger.names other

theorem history_act (ledger : Ledger) (operation : Operation) {other : String}
    (apart : ∀ name change, operation.change = some (name, change) → other ≠ name) :
    (ledger.act operation).history other = ledger.history other := by
  unfold act
  cases made : operation.change with
  | none => rfl
  | some turned =>
    obtain ⟨name, change⟩ := turned
    exact (history_turn name change ledger other).trans (if_neg (apart name change made))

/-! ### The writes of an operation -/

theorem eq_of_names {first second : Ledger} (names : first.names = second.names)
    (issued : first.issued = second.issued) : first = second := by
  obtain ⟨_, _⟩ := first
  obtain ⟨_, _⟩ := second
  cases names
  cases issued
  rfl

theorem issued_removals (name : String) (ids : List String) (ledger : Ledger) :
    ((ids.map (Write.remove name)).foldl write ledger).issued = ledger.issued := by
  induction ids generalizing ledger with
  | nil => rfl
  | cons id rest ih => exact ih (ledger.remove name id)

/-- Removals by identifiers spare the versions that have none of them. -/
theorem foldl_removals (name : String) (ids : List String) (ledger : Ledger) :
    (ids.map (Write.remove name)).foldl write ledger =
      { ledger with names := ledger.names.replace name (spared id ids (ledger.history name)) } :=
  eq_of_names (wrote_write _ ledger).removals (issued_removals name ids ledger)

/-- **The writes of an operation are its change.** -/
theorem foldl_writes {ledger : Ledger} (sound : ledger.Sound) (operation : Operation) :
    (operation.writes id id ledger.names).foldl write ledger = ledger.act operation := by
  unfold Operation.writes act
  cases operation.change with
  | none => rfl
  | some turned =>
    obtain ⟨name, change⟩ := turned
    cases grown : change.grows Version.content (ledger.history name) with
    | true =>
      have written : change.writes id id name (ledger.names.history name) = [.push name change.gains] :=
        Change.writes_grown grown
      have onto := Change.on_grown grown (Version.mk (identifier (ledger.issued + 1)))
      simp only [written, turn, grown, if_true]
      refine eq_of_names ?_ rfl
      show _ = ledger.names.replace name (change.on Version.content _ (ledger.history name))
      rw [onto]
      rfl
    | false =>
      obtain ⟨ids, written, left⟩ : ∃ ids : List String,
          change.writes id id name (ledger.history name) = ids.map (.remove name) ∧
          ∀ new, change.on Version.content new (ledger.history name) =
            spared id ids (ledger.history name) :=
        Change.writes_still name grown (sound.distinct name) fun _ => rfl
      simp only [turn, grown, Bool.false_eq_true, if_false]
      show (change.writes id id name (ledger.history name)).foldl write ledger = _
      rw [written, foldl_removals]
      refine eq_of_names ?_ rfl
      show _ = ledger.names.replace name (change.on Version.content _ (ledger.history name))
      rw [left]

/-! ### Runs -/

variable (vault : Vault)

/-- **An operation leaves the ledger that the machine leaves**, however it ends. -/
theorem step_act (operation : Operation) (session : Session) {ledger : Ledger} (sound : ledger.Sound) :
    (vault.step answer (session, ledger) operation).2.2 = ledger.act operation ∧
      (ledger.act operation).Sound := by
  obtain ⟨sound', reached⟩ := archive_lawful.writes_step sound vault trivial session
  have same := reached.trans (foldl_writes sound operation)
  rw [same] at sound'
  exact ⟨same, sound'⟩

theorem after_sound (operations : List Operation) (session : Session) {ledger : Ledger}
    (sound : ledger.Sound) :
    (vault.after answer operations (session, ledger)).2 = operations.foldl act ledger ∧
      (operations.foldl act ledger).Sound := by
  induction operations generalizing session ledger with
  | nil => exact ⟨rfl, sound⟩
  | cons operation rest ih =>
    obtain ⟨same, sound'⟩ := step_act vault operation session sound
    obtain ⟨after, last⟩ := ih (vault.step answer (session, ledger) operation).2.1 sound'
    refine ⟨?_, last⟩
    rw [List.foldl_cons, ← after, ← same]
    rfl

theorem sound_after (operations : List Operation) (session : Session) :
    (vault.after answer operations (session, {})).2.Sound := by
  obtain ⟨same, sound⟩ := after_sound vault operations session sound_empty
  rw [same]
  exact sound

theorem foldl_deletions {name : String} (bare : Fossil.isFossil name = false) (workers : List Int)
    (ledger : Ledger) :
    ((workers.map fun worker => Operation.delete worker name).foldl act ledger).history name =
      (ledger.history name).drop workers.length := by
  induction workers generalizing ledger with
  | nil => rfl
  | cons worker rest ih =>
    rw [List.map_cons, List.foldl_cons, ih, List.length_cons, Nat.add_comm, ← List.drop_drop,
      List.drop_one, act, Operation.change_pop worker bare]
    simp only [history_turn, if_true, Change.on_pop]

/-- **A vault that starts on an empty ledger is the machine of stacks**, whatever it is asked for
and by whom. A step leaves every name alone that its change is not about, and deleting a bare name
again and again takes away its newest versions one after the other. -/
theorem after_act (operations : List Operation) (session : Session) :
    (vault.after answer operations (session, {})).2 = operations.foldl act {} ∧
      (∀ before operation rest, operations = before ++ operation :: rest →
        ∀ other, (∀ name change, operation.change = some (name, change) → other ≠ name) →
          (vault.after answer (before ++ [operation]) (session, {})).2.history other =
            (vault.after answer before (session, {})).2.history other) ∧
      ∀ name, Fossil.isFossil name = false → ∀ workers : List Int,
        (vault.after answer (operations ++ workers.map (Operation.delete · name)) (session, {})).2.history
            name =
          ((vault.after answer operations (session, {})).2.history name).drop workers.length := by
  have machine : ∀ run, (vault.after answer run (session, {})).2 = run.foldl act {} := by
    intro run
    exact (after_sound vault run session sound_empty).1
  refine ⟨machine operations, ?_, ?_⟩
  · intro before operation rest _ other apart
    rw [machine, machine, List.foldl_append]
    exact history_act _ operation apart
  · intro name bare workers
    rw [machine, machine, List.foldl_append]
    exact foldl_deletions bare workers _

end FossilVault.Ledger
