import FossilVault.Proofs.Ledger.Look
import FossilVault.Proofs.Ledger.Refinement
/-
**Moves on a ledger.** Moving a name away puts a marker on it if there is none on top, moving it back
takes one away if there is one.

* `Ledger.history_hide`, `Ledger.history_unhide` — what one move does to the versions of a name;
* `Ledger.history_hides`, `Ledger.history_unhides` — what any number of moves do;
* `Ledger.step_move` — a move that means a change ends well;
* `Ledger.moves_undone` — one move back undoes any number of moves away.
-/

namespace FossilVault.Ledger

variable {vault : Vault} {ledger : Ledger} {name : String}

/-- Moving a name away puts a marker on its versions if the newest is a content. -/
theorem history_hide (worker : Int) (bare : Fossil.isFossil name = false) {top : Version}
    {older : List Version} (stack : ledger.history name = top :: older) :
    ∃ marker, marker.isHidden = true ∧
      (ledger.act (.move worker name (Fossil.fossilOf name))).history name =
        if top.isHidden then top :: older else marker :: top :: older := by
  refine ⟨⟨identifier (ledger.issued + 1), none⟩, rfl, ?_⟩
  rw [act, Operation.change_hide worker bare]
  simp only [history_turn, if_true, stack, Change.on]
  cases held : top.content <;> simp [Version.isHidden, held]

/-- Moving a name back takes the marker on top away. -/
theorem history_unhide (worker : Int) {top : Version} {older : List Version}
    (stack : ledger.history name = top :: older) :
    (ledger.act (.move worker (Fossil.fossilOf name) name)).history name =
      if top.isHidden then older else top :: older := by
  rw [act, Operation.change_unhide]
  simp only [history_turn, if_true, stack, Change.on]
  cases held : top.content <;> simp [Version.isHidden, held]

/-- A name that is hidden stays as it is, however often it is moved away. -/
theorem history_hides (bare : Fossil.isFossil name = false) {top : Version} {older : List Version}
    (hidden : top.isHidden = true) (workers : List Int) {ledger : Ledger}
    (stack : ledger.history name = top :: older) :
    ((workers.map fun worker => Operation.move worker name (Fossil.fossilOf name)).foldl act
      ledger).history name = top :: older := by
  induction workers generalizing ledger with
  | nil => exact stack
  | cons worker rest ih =>
    obtain ⟨marker, _, moved⟩ := history_hide worker bare stack
    rw [if_pos hidden] at moved
    exact ih moved

/-- Moving a name back again and again takes away the markers on top of it, and no content. -/
theorem history_unhides {markers : List Version} (hidden : ∀ marker ∈ markers, marker.isHidden = true)
    {top : Version} {older : List Version} (active : top.isHidden = false) (workers : List Int)
    {ledger : Ledger} (stack : ledger.history name = markers ++ top :: older) :
    ((workers.map fun worker => Operation.move worker (Fossil.fossilOf name) name).foldl act
      ledger).history name = markers.drop workers.length ++ top :: older := by
  induction workers generalizing ledger markers with
  | nil => exact stack
  | cons worker rest ih =>
    cases markers with
    | nil =>
      have kept := history_unhide worker stack
      rw [if_neg (by simp [active])] at kept
      exact (ih hidden kept).trans (by simp)
    | cons marker markers =>
      have taken := history_unhide worker stack
      rw [if_pos (hidden marker (.head _))] at taken
      exact ih (fun marker among => hidden marker (.tail _ among)) taken

/-- A move that means a change ends well. -/
theorem step_move (sound : ledger.Sound) (session : Session) {worker : Int} {source target : String}
    (means : (Operation.move worker source target).change.isSome = true) :
    (vault.step answer (session, ledger) (.move worker source target)).1 = .ok .done := by
  have told := archive_lawful.runs_compositional session.desk
  have moved := told.ends_move archive_lawful sound (show archive.serves worker from trivial) source target
  rw [if_pos means] at moved
  obtain ⟨_, _, ran, _⟩ := (moved.followed fun _ => Answer.done) session rfl
  exact congrArg Prod.fst ran

/-- **One move back undoes any number of moves away.** -/
theorem moves_undone (sound : ledger.Sound) (bare : Fossil.isFossil name = false) {top : Version}
    {older : List Version} (stack : ledger.history name = top :: older) (active : top.isHidden = false)
    {workers : List Int} (some : workers ≠ []) (worker : Int) (session : Session) :
    let away := workers.map fun worker => Operation.move worker name (Fossil.fossilOf name)
    (vault.after answer (away ++ [.move worker (Fossil.fossilOf name) name]) (session, ledger)).2.history
        name = ledger.history name := by
  intro away
  obtain ⟨first, rest, rfl⟩ := List.exists_cons_of_ne_nil some
  obtain ⟨marker, hidden, moved⟩ := history_hide first bare stack
  rw [if_neg (by simp [active])] at moved
  rw [(after_sound vault _ session sound).1, List.foldl_append, stack]
  exact (history_unhide worker (history_hides bare hidden rest moved)).trans (if_pos hidden)

end FossilVault.Ledger
