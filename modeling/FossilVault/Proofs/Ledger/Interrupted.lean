import FossilVault.Proofs.Ledger.Refinement
/-
**A purge that is cut short.** A purge deletes from the first marker downwards, one version at a time.
When a deletion fails the versions above it are gone, the marker first of all, and nothing puts them
back.

* `Ledger.run_deleteAll_interrupted` — what is gone when a deletion fails;
* `Ledger.history_cut` — the stack that an interrupted purge leaves;
* `Ledger.cutShort_error`, `Ledger.cutShort_ok` — a purge is cut short exactly if it comes to the
  deletion that fails.
-/

namespace FossilVault.Ledger

/-! ### A ledger that fails once -/

/-- Lets the deletion with this number fail, and nothing else. -/
def failingAt (number : Nat) (fault : Fault) (verb : Remote.Verb) (count : Nat) : Option Fault :=
  if verb = .delete ∧ count = number then some fault else none

/-- The ledger, when the deletion with this number fails. -/
def interrupted (number : Nat) (fault : Fault) :
    Handler Remote.interface (Watched Remote.interface Ledger) :=
  answer.watched Remote.Call.verb (failingAt number fault)

/-- The number of deletions among calls. -/
def deletions (calls : List Remote.Call) : Nat :=
  calls.countP (·.verb == .delete)

variable {number : Nat} {fault : Fault} {session : Session} {ledger : Ledger}
variable {calls : List Remote.Call}

theorem deletions_delete (worker : Int) (name id : String) :
    deletions (.delete worker name id :: calls) = deletions calls + 1 :=
  List.countP_cons_of_pos rfl

theorem interrupted_delete (worker : Int) (name id : String) (early : deletions calls + 1 ≠ number) :
    interrupted number fault (.delete worker name id) session ⟨ledger, calls⟩ =
      (.ok (), session, ⟨ledger.remove name id, .delete worker name id :: calls⟩) := by
  have passes : failingAt number fault .delete (deletions (.delete worker name id :: calls)) =
      none := by
    rw [deletions_delete]
    apply if_neg
    intro fails
    exact early fails.2
  exact Handler.watched_of_none passes

theorem interrupted_fails (worker : Int) (name id : String) (reached : deletions calls + 1 = number) :
    interrupted number fault (.delete worker name id) session ⟨ledger, calls⟩ =
      (.error fault, session, ⟨ledger, .delete worker name id :: calls⟩) := by
  have fails : failingAt number fault .delete (deletions (.delete worker name id :: calls)) =
      some fault := by
    rw [deletions_delete]
    exact if_pos ⟨rfl, reached⟩
  exact Handler.watched_of_some fails

theorem interrupted_list (worker : Int) (stem : String) (exact withHidden : Bool) :
    interrupted number fault (.list worker stem exact withHidden) session ⟨ledger, calls⟩ =
      (.ok (ledger.entries stem exact withHidden), session,
        ⟨ledger, .list worker stem exact withHidden :: calls⟩) := by
  have passes : ∀ count, failingAt number fault .list count = none := by
    intro count
    apply if_neg
    intro fails
    cases fails.1
  exact Handler.watched_of_none (passes _)

/-! ### A purge that is cut short -/

/-- **What is gone when a deletion fails** is what was deleted before it. -/
theorem run_deleteAll_interrupted (number : Nat) (fault : Fault) (worker : Int) (name : String)
    (entries : List Entry) (session : Session) (ledger : Ledger) (calls : List Remote.Call)
    (early : deletions calls < number)
    (within : number ≤ deletions calls + entries.length) :
    ∃ calls',
      (Vault.deleteAll worker name entries).run (interrupted number fault) session ⟨ledger, calls⟩ =
        (.error fault, session,
          ⟨((entries.take (number - deletions calls - 1)).map fun entry =>
            Write.remove name entry.id).foldl write ledger, calls'⟩) := by
  -- Every deletion before the failing one leaves one deletion less to wait for.
  induction entries generalizing calls ledger with
  | nil =>
    rw [List.length_nil] at within
    omega
  | cons entry rest ih =>
    rw [Vault.deleteAll, Program.run_bind, Remote.run_ask]
    by_cases reached : deletions calls + 1 = number
    · have none : number - deletions calls - 1 = 0 := by omega
      refine ⟨.delete worker name entry.id :: calls, ?_⟩
      rw [interrupted_fails worker name entry.id reached, none]
      rfl
    · rw [interrupted_delete worker name entry.id reached]
      have counted : deletions (.delete worker name entry.id :: calls) = deletions calls + 1 :=
        deletions_delete worker name entry.id
      rw [List.length_cons] at within
      have one : number - deletions calls - 1 = (number - (deletions calls + 1) - 1) + 1 := by omega
      obtain ⟨calls', ran⟩ := ih (ledger.remove name entry.id)
        (.delete worker name entry.id :: calls) (by omega) (by omega)
      refine ⟨calls', ran.trans ?_⟩
      rw [counted, one]
      rfl

/-- A number that no deletion reaches makes nothing fail. -/
theorem run_deleteAll_passed (number : Nat) (fault : Fault) (worker : Int) (name : String)
    (entries : List Entry) (session : Session) (ledger : Ledger) (calls : List Remote.Call)
    (beyond : number ≤ deletions calls ∨ deletions calls + entries.length < number) :
    ((Vault.deleteAll worker name entries).run (interrupted number fault) session ⟨ledger, calls⟩).1 =
      .ok () := by
  induction entries generalizing calls ledger with
  | nil => rfl
  | cons entry rest ih =>
    rw [List.length_cons] at beyond
    have counted : deletions (.delete worker name entry.id :: calls) = deletions calls + 1 :=
      deletions_delete worker name entry.id
    rw [Vault.deleteAll, Program.run_bind, Remote.run_ask,
      interrupted_delete worker name entry.id (by omega)]
    exact ih (ledger.remove name entry.id) (.delete worker name entry.id :: calls) (by omega)

/-- The versions that a purge of a name leaves. -/
def alive (name : String) (ledger : Ledger) : List Version :=
  (ledger.history name).takeWhile (·.content.isSome)

/-- The versions that a purge of a name takes away, in the order in which it does. -/
def dead (name : String) (ledger : Ledger) : List Version :=
  (ledger.history name).dropWhile (·.content.isSome)

/-- A purge leaves no marker of the name. -/
theorem isSome_of_mem_alive {name : String} {version : Version} (among : version ∈ ledger.alive name) :
    version.content.isSome = true :=
  List.all_eq_true.mp List.all_takeWhile version among

theorem alive_append_dead (name : String) (ledger : Ledger) :
    ledger.alive name ++ ledger.dead name = ledger.history name :=
  List.takeWhile_append_dropWhile

/-- The ledger without the first `count` versions that a purge takes away. -/
def cut (name : String) (count : Nat) (ledger : Ledger) : Ledger :=
  { ledger with
    names := ledger.names.replace name (ledger.alive name ++ (ledger.dead name).drop count) }

theorem history_cut (name : String) (count : Nat) (ledger : Ledger) (other : String) :
    (ledger.cut name count).history other =
      if other = name then ledger.alive name ++ (ledger.dead name).drop count
      else ledger.history other :=
  Catalog.history_replace ledger.names name _ other

theorem foldl_cut {name : String} (distinct : ((ledger.history name).map (·.id)).Nodup) (count : Nat) :
    (((ledger.dead name).take count).map fun version =>
      Write.remove name version.id).foldl write ledger = ledger.cut name count := by
  have removals := foldl_removals name (((ledger.dead name).take count).map (·.id)) ledger
  rw [List.map_map] at removals
  have split : ledger.history name =
      ledger.alive name ++ ((ledger.dead name).take count ++ (ledger.dead name).drop count) := by
    rw [List.take_append_drop, alive_append_dead]
  have left : spared id (((ledger.dead name).take count).map (·.id)) (ledger.history name) =
      ledger.alive name ++ (ledger.dead name).drop count := by
    rw [split] at distinct ⊢
    exact spared_part id distinct
  refine removals.trans (eq_of_names ?_ rfl)
  show ledger.names.replace name _ = ledger.names.replace name _
  rw [← left]

theorem Sound.cut (sound : ledger.Sound) (name : String) (count : Nat) :
    (ledger.cut name count).Sound := by
  rw [← foldl_cut (sound.distinct name)]
  exact sound.foldl _

/-- The entries that a purge deletes. -/
theorem doomed_entries (name : String) (ledger : Ledger) :
    Vault.doomed name (ledger.entries name true true) = (ledger.dead name).map (·.entry name) := by
  rw [entries_exact]
  exact doomed_map id name (ledger.history name)

/-- A purge whose deletion with this number fails. -/
def cutShort (vault : Vault) (number : Nat) (fault : Fault) (worker : Int) (name : String)
    (session : Session) (ledger : Ledger) : Vault.Ended (Watched Remote.interface Ledger) :=
  vault.step (interrupted number fault) (session, ⟨ledger, []⟩) (.delete worker (Fossil.fossilOf name))

variable (vault : Vault)

/-- After its listing a purge deletes one version after the other. -/
theorem cutShort_eq (worker : Int) (name : String) :
    cutShort vault number fault worker name session ledger =
      ((Vault.deleteAll worker name ((ledger.dead name).map (·.entry name)) >>= fun _ =>
          if !((ledger.dead name).map (·.entry name)).isEmpty then
            Program.note .info .vault ("Deleted fossil '" ++ Fossil.fossilOf name ++ "' (" ++
              toString ((ledger.dead name).map (·.entry name)).length ++ " version(s))")
          else pure ()) >>= fun _ => pure .done).run (interrupted number fault) session
        ⟨ledger, [.list worker name true true]⟩ := by
  rw [cutShort, Vault.step, Vault.perform, Vault.delete, Fossil.parse_fossilOf, ← doomed_entries]
  simp only [if_true]
  rw [Program.run_bind, Vault.purge, Program.run_bind, Remote.run_ask, interrupted_list,
    Program.run_bind]

/-- **A purge that comes to the failing deletion** is cut short and leaves what it did not come to.
-/
theorem cutShort_error {name : String} (distinct : ((ledger.history name).map (·.id)).Nodup) (worker : Int)
    (some : 1 ≤ number) (within : number ≤ (ledger.dead name).length) :
    ∃ calls, cutShort vault number fault worker name session ledger =
      (.error fault, session, ⟨ledger.cut name (number - 1), calls⟩) := by
  have none : deletions [.list worker name true true] = 0 := rfl
  have reached : number ≤ deletions [.list worker name true true] +
      ((ledger.dead name).map (·.entry name)).length := by
    rwa [none, Nat.zero_add, List.length_map]
  obtain ⟨calls, ran⟩ :=
    run_deleteAll_interrupted number fault worker name _ session ledger _ (none ▸ some) reached
  refine ⟨calls, ?_⟩
  rw [cutShort_eq, Program.run_bind, Program.run_bind, ran, none, Nat.sub_zero, ← List.map_take,
    List.map_map]
  show _ = (_, _, Watched.mk (ledger.cut name (number - 1)) calls)
  rw [← foldl_cut distinct]
  rfl

/-- A purge that does not come to the failing deletion ends well. -/
theorem cutShort_ok (worker : Int) (name : String)
    (beyond : ¬ (1 ≤ number ∧ number ≤ (ledger.dead name).length)) :
    (cutShort vault number fault worker name session ledger).1 = .ok .done := by
  have none : deletions [.list worker name true true] = 0 := rfl
  have passed := run_deleteAll_passed number fault worker name ((ledger.dead name).map (·.entry name))
    session ledger [.list worker name true true] (by rw [none, List.length_map]; omega)
  rw [cutShort_eq, Program.run_bind, Program.run_bind]
  generalize (Vault.deleteAll worker name ((ledger.dead name).map (·.entry name))).run
    (interrupted number fault) session ⟨ledger, [.list worker name true true]⟩ = ended at passed ⊢
  obtain ⟨outcome, session', world⟩ := ended
  simp only at passed
  rw [passed]
  cases ((ledger.dead name).map (·.entry name)).isEmpty <;> rfl

end FossilVault.Ledger
