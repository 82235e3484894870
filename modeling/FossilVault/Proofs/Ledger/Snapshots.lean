import FossilVault.Proofs.Ledger.Look
import FossilVault.Proofs.Sorting
/-
**The snapshots of a ledger.** The directory of snapshots lists the first part of each name under it, once,
as long as some name with that first part has a content on top. A snapshot is a directory of its own, and
it is listed exactly if something is listed in it, unless a file bears the name of the snapshot itself.

* `Ledger.isSome_held_iff` — the names that a listing without markers shows;
* `Ledger.bareDirectory_snapshot` — a snapshot is a directory like any other;
* `Ledger.step_list_snapshot` — what is listed in a snapshot;
* `Ledger.mem_snapshots_iff` — which snapshots are listed;
* `Ledger.snapshots_listed` — the listing of the snapshots and the listings of each of them.
-/

namespace FossilVault.Ledger

variable {vault : Vault} {ledger : Ledger} {id : String}

/-- The newest version of a name is a content. -/
def Shows (ledger : Ledger) (name : String) : Prop :=
  (ledger.history name).head?.any (!·.isHidden) = true

theorem not_shows_of_void {name : String} (void : ledger.history name = []) : ¬ ledger.Shows name := by
  rw [Shows, void]
  exact Bool.false_ne_true

theorem isSome_held_iff {name : String} :
    (Stacks.held name (archive.stacked ledger)).isSome = true ↔ ledger.Shows name := by
  rw [Stacks.held, Shows, history_stacked]
  rcases ledger.history name with - | ⟨⟨id, - | content⟩, older⟩ <;> simp [Version.isHidden]

/-- The remainders of the names under `stem` with a content on top. -/
theorem mem_visible_iff {stem rest : String} :
    rest ∈ ((Stacks.rests stem (archive.stacked ledger)).filter fun rest =>
        (Stacks.held (stem ++ rest) (archive.stacked ledger)).isSome) ↔
      ledger.Shows (stem ++ rest) := by
  rw [List.mem_filter, isSome_held_iff, mem_rests_iff]
  exact and_iff_right_of_imp fun shows void => not_shows_of_void void shows

/-! ### One snapshot -/

/-- A snapshot is named without a slash at its end. -/
theorem bareDirectory_snapshot (named : id ≠ "") (part : '/' ∉ id.toList) :
    Vault.bareDirectory ("snapshots/" ++ id) = "snapshots/" ++ id := by
  have stripped : Text.endsWith ("snapshots/" ++ id) "/" = false := by
    rw [Bool.eq_false_iff]
    intro ends
    obtain ⟨start, same⟩ := Text.endsWith_iff.mp ends
    have filled : id.toList ≠ [] := by simpa using named
    have last := congrArg (fun text => text.toList.getLast?) same
    simp only [String.toList_append] at last
    rw [List.getLast?_append, List.getLast?_append, List.getLast?_eq_some_getLast filled,
      Option.some_or] at last
    exact part (List.mem_of_getLast? (List.getLast?_eq_some_getLast filled ▸ last))
  have trimmed := Text.trimEnd_append_replicate stripped 0
  rwa [List.replicate_zero, String.ofList_nil, String.append_empty] at trimmed

theorem step_list_snapshot (named : id ≠ "") (part : '/' ∉ id.toList) (worker : Int) (session : Session) :
    vault.step answer (session, ledger) (.list worker ("snapshots/" ++ id)) =
      (.ok (.listing {
        files := (Stacks.rests ("snapshots/" ++ id ++ "/") (archive.stacked ledger)).filter fun rest =>
          (Stacks.held ("snapshots/" ++ id ++ "/" ++ rest) (archive.stacked ledger)).isSome }),
        session, ledger) := by
  have slash : '/' ∈ ("snapshots/" ++ id).toList := by simp
  have notDirectory {bare : String} (none : '/' ∉ bare.toList) : "snapshots/" ++ id ≠ bare := by
    rintro rfl
    exact none slash
  have stem : Vault.stemOf ("snapshots/" ++ id) = "snapshots/" ++ id ++ "/" := by
    rw [Vault.stemOf_eq, if_neg (notDirectory (by decide))]
  rw [step_list, Stacks.listing_plain (bareDirectory_snapshot named part) (notDirectory (by decide))
    (notDirectory (by decide)), stem]

/-! ### All snapshots -/

/-- The identifiers of the snapshots, with the slash behind them. -/
def snapshots (ledger : Ledger) : List String :=
  Vault.sortedNames <| ((Stacks.rests "snapshots/" (archive.stacked ledger)).filter fun rest =>
    (Stacks.held ("snapshots/" ++ rest) (archive.stacked ledger)).isSome).map fun rest =>
      Text.upTo '/' rest ++ "/"

theorem step_list_snapshots (slashes : Nat) (worker : Int) (session : Session) :
    vault.step answer (session, ledger)
        (.list worker ("snapshots" ++ String.ofList (List.replicate slashes '/'))) =
      (.ok (.listing { files := ledger.snapshots }), session, ledger) := by
  have trimmed := Text.trimEnd_append_replicate (show Text.endsWith "snapshots" "/" = false by decide) slashes
  rw [step_list, Stacks.listing_snapshots trimmed]
  rfl

/-- **A snapshot is listed exactly if a name that starts with it has a content on top.** -/
theorem mem_snapshots_iff {file : String} :
    file ∈ ledger.snapshots ↔
      ∃ part rest, file = part ++ "/" ∧ '/' ∉ part.toList ∧
        (rest = part ∨ ∃ more, rest = part ++ "/" ++ more) ∧ ledger.Shows ("snapshots/" ++ rest) := by
  rw [snapshots, Vault.sortedNames, List.mem_mergeSort, List.mem_eraseDups, List.mem_map]
  simp only [mem_visible_iff]
  constructor
  · rintro ⟨rest, shows, rfl⟩
    obtain ⟨unmarked, whole⟩ := Text.upTo_eq_iff.mp (rfl : Text.upTo '/' rest = _)
    exact ⟨_, rest, rfl, unmarked, whole, shows⟩
  · rintro ⟨part, rest, rfl, unmarked, whole, shows⟩
    exact ⟨rest, shows, by rw [Text.upTo_eq_iff.mpr ⟨unmarked, whole⟩]⟩

/-- A snapshot of which no file bears the name is listed exactly if a name in it has a content on top. -/
theorem mem_snapshots_iff_inside (part : '/' ∉ id.toList) (void : ledger.history ("snapshots/" ++ id) = []) :
    id ++ "/" ∈ ledger.snapshots ↔ ∃ rest, ledger.Shows ("snapshots/" ++ id ++ "/" ++ rest) := by
  have inside (more : String) : "snapshots/" ++ (id ++ "/" ++ more) = "snapshots/" ++ id ++ "/" ++ more := by
    rw [String.append_assoc, String.append_assoc, String.append_assoc]
  rw [mem_snapshots_iff]
  constructor
  · rintro ⟨first, rest, same, _, whole, shows⟩
    obtain rfl := Text.append_left_inj.mp same
    rcases whole with rfl | ⟨more, rfl⟩
    · exact absurd shows (not_shows_of_void void)
    · exact ⟨more, inside more ▸ shows⟩
  · rintro ⟨more, shows⟩
    exact ⟨id, _, rfl, part, .inr ⟨more, rfl⟩, (inside more).symm ▸ shows⟩

/-- **The listing of the snapshots is exactly those that have something to show.** It is in ascending order,
without sizes, and holds the first part of each name under the directory whose newest version is a content. In
the listing of one snapshot stand the remainders of the names under it whose newest version is a content. The
snapshot is listed exactly if that listing is not empty, as long as no version is stored under its own name. -/
theorem snapshots_listed (vault : Vault) (ledger : Ledger) (slashes : Nat) (worker : Int)
    (session : Session) :
    let directory := "snapshots" ++ String.ofList (List.replicate slashes '/')
    ∃ listing : Listing,
      vault.step answer (session, ledger) (.list worker directory) =
        (.ok (.listing listing), session, ledger) ∧
      listing.sizes = [] ∧ listing.files.Pairwise (· < ·) ∧
      (∀ file, file ∈ listing.files ↔
        ∃ part rest, file = part ++ "/" ∧ '/' ∉ part.toList ∧
          (rest = part ∨ ∃ more, rest = part ++ "/" ++ more) ∧ ledger.Shows ("snapshots/" ++ rest)) ∧
      ∀ id, id ≠ "" → '/' ∉ id.toList →
        ∃ inner : Listing,
          (∀ viewer look, vault.step answer (look, ledger) (.list viewer ("snapshots/" ++ id)) =
            (.ok (.listing inner), look, ledger)) ∧
          inner.sizes = [] ∧ inner.files.Pairwise (· < ·) ∧
          (∀ rest, rest ∈ inner.files ↔ ledger.Shows ("snapshots/" ++ id ++ "/" ++ rest)) ∧
          (ledger.history ("snapshots/" ++ id) = [] → (id ++ "/" ∈ listing.files ↔ inner.files ≠ [])) := by
  intro directory
  refine ⟨{ files := ledger.snapshots }, step_list_snapshots slashes worker session, rfl,
    Sorting.ascending_mergeSort_eraseDups _, fun _ => mem_snapshots_iff, ?_⟩
  intro id named part
  refine ⟨_, step_list_snapshot named part, rfl, (Stacks.pairwise_rests _ _).filter _,
    fun _ => mem_visible_iff, ?_⟩
  intro void
  rw [mem_snapshots_iff_inside part void, ne_eq, List.eq_nil_iff_forall_not_mem]
  simp only [mem_visible_iff, Classical.not_forall, Classical.not_not]

/-- A snapshot with two revisions, the newer one of them hidden, and slashes behind the directory. -/
theorem snapshots_listed_of_hidden :
    let ledger := (Vault.after {} answer [.upload 0 "snapshots/a/1" [1], .upload 0 "snapshots/a/2" [2],
      .move 0 "snapshots/a/2" "snapshots/a/2.fsl"] ({}, {})).2
    "a" ≠ "" ∧ '/' ∉ "a".toList ∧ ledger.history "snapshots/a" = [] ∧
      ∃ listing inner : Listing,
        Vault.step {} answer ({}, ledger) (.list 0 "snapshots//") = (.ok (.listing listing), {}, ledger) ∧
        Vault.step {} answer ({}, ledger) (.list 0 "snapshots/a") = (.ok (.listing inner), {}, ledger) ∧
        "a/" ∈ listing.files ∧ "1" ∈ inner.files ∧ "2" ∉ inner.files := by
  intro ledger
  have named : "a" ≠ "" := by decide
  have part : '/' ∉ "a".toList := by decide
  have void : ledger.history "snapshots/a" = [] := by decide
  obtain ⟨listing, listed, _, _, _, inside⟩ := snapshots_listed {} ledger 2 0 {}
  obtain ⟨inner, within, _, _, files, shown⟩ := inside "a" named part
  have kept : "1" ∈ inner.files := (files "1").mpr (show Option.any _ _ = true by decide)
  have hidden : "2" ∉ inner.files := mt (files "2").mp (show ¬ Option.any _ _ = true by decide)
  exact ⟨named, part, void, listing, inner, listed, within 0 {}, (shown void).mpr (List.ne_nil_of_mem kept),
    kept, hidden⟩

end FossilVault.Ledger
