import FossilVault.Proofs.Archive
import FossilVault.Remote.Ledger
/-
**The ledger as an archive.** A ledger gives its identifiers in order and never one twice, so the
versions of a name are told apart by them for as long as the ledger lives. With this it meets what a
vault relies on, whatever the worker, and lists every stack as it stands.

* `Ledger.identifier_injective` — different numbers have different identifiers;
* `Ledger.Sound.push`, `Ledger.Sound.remove` — the identifiers stay distinct;
* `Ledger.archive_lawful` — the ledger is a lawful archive.
-/

namespace FossilVault.Ledger

theorem identifier_injective : Function.Injective identifier := by
  intro first second same
  exact Text.toString_injective (Text.append_right_inj.mp same)

/-! ### Identifiers -/

/-- An identifier is among the first that were given. -/
def Given (issued : Nat) (id : String) : Prop :=
  ∃ number, number ≤ issued ∧ id = identifier number

theorem Given.later {issued : Nat} {id : String} (given : Given issued id) :
    Given (issued + 1) id := by
  obtain ⟨number, low, same⟩ := given
  exact ⟨number, Nat.le_succ_of_le low, same⟩

/-- The next identifier was not given yet. -/
theorem not_given_next (issued : Nat) : ¬ Given issued (identifier (issued + 1)) := by
  rintro ⟨number, low, same⟩
  have next : issued + 1 = number := identifier_injective same
  omega

/-- The versions of a name have different identifiers, all of which were given. -/
structure Sound (ledger : Ledger) : Prop where
  distinct (name : String) : ((ledger.history name).map (·.id)).Nodup
  given (name : String) : ∀ version ∈ ledger.history name, Given ledger.issued version.id

theorem sound_empty : Sound {} where
  distinct _ := .nil
  given _ _ among := nomatch among

namespace Sound

variable {ledger : Ledger}

theorem push (sound : ledger.Sound) (name : String) (content : Option Bytes) :
    (ledger.push name content).Sound where
  distinct other := by
    rw [history_push]
    split
    · refine List.nodup_cons.mpr ⟨?_, sound.distinct name⟩
      intro among
      obtain ⟨version, inside, same⟩ := List.mem_map.mp among
      have given := sound.given name version inside
      rw [show version.id = identifier (ledger.issued + 1) from same] at given
      exact not_given_next ledger.issued given
    · exact sound.distinct other
  given other version among := by
    rw [history_push] at among
    split at among
    · rcases List.mem_cons.mp among with new | inside
      · exact ⟨ledger.issued + 1, Nat.le_refl _, congrArg Version.id new⟩
      · exact (sound.given name version inside).later
    · exact (sound.given other version among).later

theorem remove (sound : ledger.Sound) (name id : String) : (ledger.remove name id).Sound where
  distinct other := by
    rw [history_remove]
    split
    · exact (sound.distinct name).sublist (List.filter_sublist.map _)
    · exact sound.distinct other
  given other version among := by
    rw [history_remove] at among
    split at among
    · exact sound.given name version (List.mem_filter.mp among).1
    · exact sound.given other version among

end Sound

/-! ### The archive -/

/-- The ledger after a write. -/
def write (ledger : Ledger) : Write → Ledger
  | .push name content => ledger.push name content
  | .remove name id => ledger.remove name id

theorem Sound.foldl {ledger : Ledger} (sound : ledger.Sound) (writes : List Write) :
    (writes.foldl write ledger).Sound := by
  induction writes generalizing ledger with
  | nil => exact sound
  | cons first rest ih =>
    cases first with
    | push name content => exact ih (sound.push name content)
    | remove name id => exact ih (sound.remove name id)

theorem wrote_write (writes : List Write) (ledger : Ledger) :
    ledger.names.Wrote id writes (writes.foldl write ledger).names := by
  induction writes generalizing ledger with
  | nil => exact .none _
  | cons first rest ih =>
    cases first with
    | push name content => exact .push rfl (ih (ledger.push name content))
    | remove name id => exact .remove (ih (ledger.remove name id))

/-- The ledger as a vault sees it. -/
def archive : Archive Version Ledger where
  handler := answer
  names := names
  version := id
  order := id
  sound := Sound
  serves _ := True
  reaches writes ledger ledger' := ledger' = writes.foldl write ledger

theorem entries_eq (stem : String) (exact withHidden : Bool) (ledger : Ledger) :
    ledger.entries stem exact withHidden = ledger.names.listing id id stem exact withHidden := rfl

/-- A listing of one name shows its versions, the newest first. -/
theorem entries_exact (ledger : Ledger) (name : String) :
    ledger.entries name true true = (ledger.history name).map (Version.entry name) := by
  rw [entries_eq, Catalog.listing_exact id rfl]
  rfl

theorem source_steady (content : Bytes) : ({ content } : Source).Steady := by
  intro _ size
  exact ⟨size, rfl, id⟩

theorem opens (ledger : Ledger) (sound : ledger.Sound) (worker : Int) (name : String) :
    archive.Opens worker name ledger := by
  have newest : Stacks.held name (archive.stacked ledger) =
      ((ledger.history name).head?.map Version.content).join := by
    rw [Stacks.held, Archive.stacked, Catalog.history_contents, List.head?_map]
    rfl
  unfold Archive.Opens
  rw [newest]
  cases stack : ledger.history name with
  | nil =>
    refine ⟨.refused "NoSuchKey" (name ++ " not found") "GetObject", rfl, ?_⟩
    intro session
    refine ⟨session, ledger, ?_, .refl session, sound, rfl⟩
    simp only [archive, answer, opened, stack]
  | cons top rest =>
    obtain ⟨id, content⟩ := top
    cases content with
    | none =>
      refine ⟨.refused "NoSuchKey" (name ++ " not found") "GetObject", rfl, ?_⟩
      intro session
      refine ⟨session, ledger, ?_, .refl session, sound, rfl⟩
      simp only [archive, answer, opened, stack]
    | some content =>
      refine ⟨{ source := { content }, details := { id := some id } }, rfl, source_steady content, ?_⟩
      intro session
      refine ⟨session, ledger, ?_, .refl session, sound, rfl⟩
      simp only [archive, answer, opened, stack]

/-- **The ledger is a lawful archive.** -/
theorem archive_lawful : archive.Lawful where
  order_void := rfl
  order_perm _ _ := .refl _
  order_head _ _ := rfl
  distinct sound := sound.distinct
  wrote {ledger _ writes} reached := reached ▸ wrote_write writes ledger
  stay _ := rfl
  trans {ledger _ _ _ _} before after := by
    show _ = _
    rw [List.foldl_append, ← show _ = _ from before]
    exact after
  list {ledger} sound _ _ stem exact withHidden := by
    intro session
    exact ⟨session, ledger, rfl, .refl session, sound, rfl⟩
  delete {ledger} sound _ _ name id := by
    intro session
    exact ⟨session, ledger.remove name id, rfl, .refl session, sound.remove name id, rfl⟩
  hide {ledger} sound _ _ name := by
    refine ⟨identifier (ledger.issued + 1), ?_⟩
    intro session
    exact ⟨session, ledger.push name none, rfl, .refl session, sound.push name none, rfl⟩
  upload {ledger} sound _ _ name content _ := by
    intro session
    exact ⟨session, ledger.push name (some content), rfl, .refl session,
      sound.push name (some content), rfl⟩
  download {ledger} sound worker _ name := ledger.opens sound worker name

end FossilVault.Ledger
