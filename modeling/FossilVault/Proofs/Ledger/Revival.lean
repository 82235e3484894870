import FossilVault.Proofs.Archive.Revivable
import FossilVault.Proofs.Ledger.Interrupted
import FossilVault.Proofs.Ledger.Moves
/-
**Fossils of a ledger.** Whatever was asked of a vault and whatever failed meanwhile, every marker of
its ledger lies right on a content. So one move brings a fossil back, however often the name was moved
away before.

* `Ledger.after_revivable` — every run keeps the fossils revivable, with any failures on the way;
* `Ledger.fossil_moves_back` — a found fossil is shown again by one move;
* `Ledger.fossils_revive` — one move brings every fossil back, and undoes any number of moves there.
-/

namespace FossilVault.Ledger

variable {vault : Vault} {ledger : Ledger} {name : String}

/-! ### Runs with failures -/

/-- **Every run keeps the fossils revivable**, whichever of its calls fail. -/
theorem after_revivable (vault : Vault) {ω : Type} {seen : ω → Ledger} {h : Handler Remote.interface ω}
    (falters : answer.Falters seen h) (operations : List Operation) (session : Session) {world : ω}
    (sound : (seen world).Sound) (revivable : (archive.stacked (seen world)).Revivable) :
    let ledger := seen (vault.after h operations (session, world)).2
    ledger.Sound ∧ (archive.stacked ledger).Revivable := by
  induction operations generalizing session world with
  | nil => exact ⟨sound, revivable⟩
  | cons operation rest ih =>
    have served : archive.serves operation.worker := trivial
    obtain ⟨sound', revivable'⟩ := archive_lawful.revivable_step falters (fun _ => rfl) vault served
      session sound revivable
    exact ih (vault.step h (session, world) operation).2.1 sound' revivable'

/-- A marker that lies on the versions `below` lies on a content. -/
theorem content_below (revivable : (archive.stacked ledger).Revivable) {above below : List Version}
    {marker : Version} (stack : ledger.history name = above ++ marker :: below)
    (hidden : marker.isHidden = true) : ∃ next older, below = next :: older ∧ next.isHidden = false := by
  have held : marker.content = none := by simpa [Version.isHidden] using hidden
  have stacked : (archive.stacked ledger).history name =
      above.map Version.content ++ none :: below.map Version.content := by
    rw [history_stacked, stack, List.map_append, List.map_cons, held]
  obtain ⟨content, _, next⟩ := revivable.anchored name _ _ stacked
  cases below with
  | nil => cases next
  | cons version older =>
    refine ⟨version, older, rfl, ?_⟩
    rw [Version.isHidden, (List.cons.inj next).1]
    rfl

/-- A found fossil is shown again by one move, and no fossil is left. -/
theorem fossil_moves_back (sound : ledger.Sound) (revivable : (archive.stacked ledger).Revivable)
    {viewer : Int} {look : Session} {size : Int}
    (found : ledger.Finds vault viewer look (Fossil.fossilOf name) size) (worker : Int)
    (session : Session) (viewer' : Int) (look' : Session) :
    let ended := vault.step answer (session, ledger) (.move worker (Fossil.fossilOf name) name)
    ended.1 = .ok .done ∧ (∃ size', ended.2.2.Finds vault viewer' look' name size') ∧
      ended.2.2.Misses vault viewer' look' (Fossil.fossilOf name) := by
  intro ended
  obtain ⟨marker, below, stack, hidden, _⟩ := finds_fossil_iff.mp found
  obtain ⟨next, older, rfl, active⟩ :=
    content_below revivable (stack.trans (List.nil_append _).symm) hidden
  have bare : Fossil.isFossil name = false := by
    refine revivable.bare name ?_
    rw [history_stacked, stack, List.map_cons]
    exact List.mem_cons.mpr (.inl (Eq.symm (by simpa [Version.isHidden] using hidden)))
  have shown : ended.2.2.history name = next :: older := by
    rw [(step_act vault _ session sound).1]
    exact (history_unhide worker stack).trans (if_pos hidden)
  refine ⟨step_move sound session (by rw [Operation.change_unhide]; rfl), ?_, ?_⟩
  · rw [exists_finds_iff bare, shown]
    simp [active]
  · rw [misses_iff_not_finds]
    intro size' found'
    obtain ⟨top, _, stack', hidden', _⟩ := finds_fossil_iff.mp found'
    cases shown.symm.trans stack'
    rw [active] at hidden'
    cases hidden'

/-- **One move brings every fossil back**, after any run of operations, whichever of their calls failed
before or after they were done. In every stack a marker lies right on a content. So if a fossil is found,
moving it back shows the name and no fossil; and if a name is found, moving it away any number of times
and back once leaves its versions as they were. -/
theorem fossils_revive (vault : Vault) {ω : Type} {seen : ω → Ledger} {h : Handler Remote.interface ω}
    (falters : answer.Falters seen h) (operations : List Operation) (setup : Session) {world : ω}
    (start : seen world = {}) :
    let ledger := seen (vault.after h operations (setup, world)).2
    (∀ name above marker below, ledger.history name = above ++ marker :: below →
      marker.isHidden = true → ∃ next older, below = next :: older ∧ next.isHidden = false) ∧
    (∀ name viewer look size, ledger.Finds vault viewer look (Fossil.fossilOf name) size →
      ∀ worker session viewer' look',
        let ended := vault.step answer (session, ledger) (.move worker (Fossil.fossilOf name) name)
        ended.1 = .ok .done ∧ (∃ size', ended.2.2.Finds vault viewer' look' name size') ∧
          ended.2.2.Misses vault viewer' look' (Fossil.fossilOf name)) ∧
    ∀ name viewer look size, Fossil.isFossil name = false →
      ledger.Finds vault viewer look name size →
        ∀ (workers : List Int) (worker : Int) (session : Session), workers ≠ [] →
          let away := workers.map fun worker => Operation.move worker name (Fossil.fossilOf name)
          (vault.after answer (away ++ [.move worker (Fossil.fossilOf name) name])
            (session, ledger)).2.history name = ledger.history name := by
  intro ledger
  obtain ⟨sound, revivable⟩ : ledger.Sound ∧ (archive.stacked ledger).Revivable := by
    refine after_revivable vault falters operations setup ?_ ?_
    · exact start ▸ sound_empty
    · exact start ▸ Stacks.Revivable.empty
  refine ⟨?_, ?_, ?_⟩
  · intro name above marker below stack hidden
    exact content_below revivable stack hidden
  · intro name viewer look size found worker session viewer' look'
    exact fossil_moves_back sound revivable found worker session viewer' look'
  · intro name viewer look size bare found workers worker session some
    obtain ⟨top, older, content, stack, held, _⟩ := (finds_content_iff bare).mp found
    exact moves_undone sound bare stack (by simp [Version.isHidden, held]) some worker session

/-- A purge that fails at the second of its four deletions has taken the marker away from the content
below; moving the name away again makes a fossil, and one move brings it back. -/
theorem fossils_revive_interrupted :
    let operations := [.upload 0 "n" [1], .move 0 "n" "n.fsl", .upload 0 "n" [2], .move 0 "n" "n.fsl",
      .delete 0 "n.fsl", .move 1 "n" "n.fsl"]
    let h := interrupted 2 (.external .system "boom")
    let ledger := (Vault.after {} h operations ({}, ⟨{}, []⟩)).2.world
    let ended := Vault.step {} answer ({}, ledger) (.move 1 (Fossil.fossilOf "n") "n")
    ledger.history "n" = [⟨"v5", none⟩, ⟨"v3", some [2]⟩, ⟨"v2", none⟩, ⟨"v1", some [1]⟩] ∧
      ledger.Finds {} 0 {} (Fossil.fossilOf "n") 0 ∧ ended.1 = .ok .done ∧
      (∃ size, ended.2.2.Finds {} 0 {} "n" size) ∧
      ended.2.2.Misses {} 0 {} (Fossil.fossilOf "n") := by
  intro operations h
  have stack : (Vault.after {} h operations ({}, ⟨{}, []⟩)).2.world.history "n" =
      [⟨"v5", none⟩, ⟨"v3", some [2]⟩, ⟨"v2", none⟩, ⟨"v1", some [1]⟩] := by decide +kernel
  have falters : answer.Falters Watched.world h := answer.watched_falters _ _
  have start : Watched.world (⟨{}, []⟩ : Watched Remote.interface Ledger) = {} := rfl
  have settled := fossils_revive {} falters operations {} start
  -- What the run leaves is not computed again below.
  generalize (Vault.after {} h operations ({}, ⟨{}, []⟩)).2.world = ledger at stack settled ⊢
  have fossil : ledger.Finds {} 0 {} (Fossil.fossilOf "n") 0 :=
    finds_fossil_iff.mpr ⟨_, _, stack, rfl, rfl⟩
  exact ⟨stack, fossil, settled.2.1 "n" 0 {} 0 fossil 1 {} 0 {}⟩

end FossilVault.Ledger
