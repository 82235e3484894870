import FossilVault.Proofs.Ledger.Revival
/-
**Which names are stored.** A name that ends like a fossil is meant to be a way of speaking and never to
be stored. Moves, deletions and looks keep to that, since they take the suffix off; an upload stores what
it is given under the path as it stands. So it is up to the uploads, and where one of them has stored
such a name the listing of its directory is ambiguous or points to a fossil that is not there.

* `Ledger.uploaded_of_stored` — nothing is stored but what was uploaded under that very name;
* `Ledger.plain_throughout_iff` — no stored name ends like a fossil exactly if no uploaded path does;
* `Ledger.listed_plain_iff` — the chunks are listed without ambiguity exactly if none is stored so;
* `Ledger.plain_iff` — both, for every run;
* `Ledger.upload_stores_fossil` — an upload to the path of a fossil.
-/

namespace FossilVault

theorem Operation.upload_of_push {operation : Operation} {name : String} {content : Bytes}
    (made : operation.change = some (name, .push content)) :
    ∃ worker, operation = .upload worker name content := by
  cases operation with
  | upload worker path content =>
    cases made
    exact ⟨worker, rfl⟩
  | move worker source target =>
    rw [change] at made
    split at made
    · cases made
    · split at made <;> cases made
  | delete worker path =>
    rw [change] at made
    simp only [Option.some.injEq, Prod.mk.injEq] at made
    split at made <;> cases made.2
  | download | inspect | list | makeDirectory => cases made

namespace Ledger

/-! ### Uploaded names -/

/-- An operation stores no name that was not stored, unless it is an upload to that name. -/
theorem stored_act {ledger : Ledger} {operation : Operation} {name : String}
    (stored : (ledger.act operation).history name ≠ []) :
    ledger.history name ≠ [] ∨ ∃ worker content, operation = .upload worker name content := by
  by_cases void : ledger.history name = []
  · obtain ⟨change, made⟩ : ∃ change, operation.change = some (name, change) := by
      refine Classical.byContradiction fun apart => ?_
      have same := history_act ledger operation (show ∀ other change,
        operation.change = some (other, change) → name ≠ other from by
          rintro other change made rfl
          exact apart ⟨change, made⟩)
      exact stored (same.trans void)
    have turned : change.on Version.content (Version.mk (identifier (ledger.issued + 1))) [] ≠ [] := by
      rw [act, made] at stored
      simpa only [history_turn, if_true, void] using stored
    -- Of an empty stack only a push makes anything.
    cases change with
    | push content =>
      obtain ⟨worker, rfl⟩ := Operation.upload_of_push made
      exact .inr ⟨worker, content, rfl⟩
    | hide | unhide | pop | purge => exact absurd (Change.on_void rfl _) turned
  · exact .inl void

/-- **Nothing is stored but what was uploaded under that very name.** -/
theorem uploaded_of_stored {operations : List Operation} {ledger : Ledger} {name : String}
    (stored : (operations.foldl act ledger).history name ≠ []) :
    ledger.history name ≠ [] ∨ ∃ worker content, .upload worker name content ∈ operations := by
  induction operations generalizing ledger with
  | nil => exact .inl stored
  | cons operation rest ih =>
    rcases ih stored with stored' | ⟨worker, content, later⟩
    · rcases stored_act stored' with before | ⟨worker, content, rfl⟩
      · exact .inl before
      · exact .inr ⟨worker, content, .head _⟩
    · exact .inr ⟨worker, content, .tail _ later⟩

/-- No name that ends like a fossil is ever stored exactly if none is uploaded. -/
theorem plain_throughout_iff (vault : Vault) (operations : List Operation) (session : Session) :
    (∀ before rest, operations = before ++ rest → (vault.after answer before (session, {})).2.Plain) ↔
      ∀ worker path content, .upload worker path content ∈ operations →
        Fossil.isFossil path = false := by
  have machine (run : List Operation) : (vault.after answer run (session, {})).2 = run.foldl act {} :=
    (after_sound vault run session sound_empty).1
  simp only [machine]
  constructor
  · intro plain worker path content uploaded
    obtain ⟨before, rest, rfl⟩ := List.append_of_mem uploaded
    refine plain (before ++ [.upload worker path content]) rest (by simp) path ?_
    rw [List.foldl_append]
    simp [act, Operation.change, history_turn, Change.on]
  · rintro bare before rest rfl name stored
    rcases uploaded_of_stored stored with empty | ⟨worker, content, uploaded⟩
    · exact absurd rfl empty
    · exact bare worker name content (List.mem_append_left rest uploaded)

/-! ### What is listed -/

/-- The chunks are listed without ambiguity exactly if none is stored under a name that ends like a
fossil. -/
theorem listed_plain_iff {ledger : Ledger} (revivable : (archive.stacked ledger).Revivable)
    (vault : Vault) (viewer : Int) (look : Session) :
    let files := (Stacks.listing "chunks" (archive.stacked ledger)).files
    (∀ name, ledger.history ("chunks/" ++ name) ≠ [] → Fossil.isFossil name = false) ↔
      files.Nodup ∧ ∀ name, Fossil.fossilOf name ∈ files →
        (∃ marker older, ledger.history ("chunks/" ++ name) = marker :: older ∧
          marker.isHidden = true) ∧
        ledger.Finds vault viewer look ("chunks/" ++ Fossil.fossilOf name) 0 := by
  intro files
  have stored : (∀ name, ledger.history ("chunks/" ++ name) ≠ [] → Fossil.isFossil name = false) ↔
      (archive.stacked ledger).PlainIn "chunks" := by
    simp only [Stacks.plainIn_iff_stored, stacked_ne_nil_iff]
    rfl
  have looked (name : String) :
      Stacks.info (Fossil.fossilOf ("chunks/" ++ name)) (archive.stacked ledger) = ⟨true, false, 0⟩ ↔
        (∃ marker older, ledger.history ("chunks/" ++ name) = marker :: older ∧
          marker.isHidden = true) ∧
        ledger.Finds vault viewer look ("chunks/" ++ Fossil.fossilOf name) 0 := by
    have whole : "chunks/" ++ Fossil.fossilOf name = Fossil.fossilOf ("chunks/" ++ name) :=
      String.append_assoc.symm
    rw [whole, finds_iff]
    refine ⟨fun told => ⟨?_, told⟩, And.right⟩
    obtain ⟨marker, older, stack, hidden, _⟩ :=
      finds_fossil_iff.mp (finds_iff.mpr told : ledger.Finds vault viewer look _ 0)
    exact ⟨marker, older, stack, hidden⟩
  have chunks : Vault.bareDirectory "chunks" = "chunks" := by decide
  simp only [files, Stacks.listing_chunks chunks, ← looked]
  exact stored.trans (Stacks.plainIn_iff revivable.bare)

/-- **An upload is all that stores a name that ends like a fossil**: in no state of a run is one stored
exactly if no uploaded path ends so. Of the chunks in any state, none is stored under such a name exactly
if no path is listed twice and every listed fossil is one, that is, a marker lies on top of its name and a
look finds it. -/
theorem plain_iff (vault : Vault) (operations : List Operation) (setup session look : Session)
    (worker viewer : Int) :
    let reached (run : List Operation) := (vault.after answer run (setup, {})).2
    let ledger := reached operations
    ((∀ before rest, operations = before ++ rest → (reached before).Plain) ↔
      ∀ worker path content, .upload worker path content ∈ operations →
        Fossil.isFossil path = false) ∧
    ∃ listing : Listing,
      vault.step answer (session, ledger) (.list worker "chunks") =
        (.ok (.listing listing), session, ledger) ∧
      ((∀ name, ledger.history ("chunks/" ++ name) ≠ [] → Fossil.isFossil name = false) ↔
        listing.files.Nodup ∧ ∀ name, Fossil.fossilOf name ∈ listing.files →
          (∃ marker older, ledger.history ("chunks/" ++ name) = marker :: older ∧
            marker.isHidden = true) ∧
          ledger.Finds vault viewer look ("chunks/" ++ Fossil.fossilOf name) 0) := by
  intro reached ledger
  have revivable : (archive.stacked ledger).Revivable :=
    (after_revivable vault answer.falters_self operations setup sound_empty .empty).2
  exact ⟨plain_throughout_iff vault operations setup, _, step_list vault ledger session worker "chunks",
    listed_plain_iff revivable vault viewer look⟩

/-- **An upload to the path of a fossil** is stored as it stands and listed, though a look finds neither a
file nor a fossil there. -/
theorem upload_stores_fossil :
    let ledger := (Vault.after {} answer [.upload 0 "chunks/h.fsl" [120]] ({}, {})).2
    Fossil.isFossil "chunks/h.fsl" = true ∧ ledger.history "chunks/h.fsl" ≠ [] ∧
      Vault.step {} answer ({}, ledger) (.list 0 "chunks") =
        (.ok (.listing ⟨["h.fsl"], [1]⟩), {}, ledger) ∧
      ledger.Misses {} 0 {} "chunks/h.fsl" := by
  intro ledger
  refine ⟨by decide, by decide, ?_, misses_iff.mpr (by decide)⟩
  rw [step_list]
  have listed : Stacks.listing "chunks" (archive.stacked ledger) = ⟨["h.fsl"], [1]⟩ := by decide
  rw [listed]

end Ledger

end FossilVault
