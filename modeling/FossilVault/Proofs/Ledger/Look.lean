import FossilVault.Proofs.Archive.Operation
import FossilVault.Proofs.Directory
import FossilVault.Proofs.Ledger.Contract
/-
**Looking at a ledger.** A look at a path and a listing of a directory change nothing, and what they
tell is read off the newest versions. This holds of every ledger, whatever its identifiers.

* `Ledger.step_inspect`, `Ledger.step_list` — what a look and a listing tell;
* `Ledger.exists_finds_iff`, `Ledger.finds_fossil_iff` — where a look finds a file or a fossil;
* `Ledger.listing_agrees` — they agree, for every directory and every path in it, as long as no stored
  name ends like a fossil.
-/

namespace FossilVault.Ledger

variable (vault : Vault) (ledger : Ledger)

/-! ### What is told -/

/-- A listing of all versions of a name tells the state of the name. -/
theorem stateOf_entries (name : String) :
    stateOf name (ledger.entries name true true) =
      (ledger.history name).head?.map fun newest => (newest.entry name).state := by
  rw [entries_eq, Catalog.listing_exact id rfl, stateOf_shelf]
  rfl

theorem step_inspect (session : Session) (worker : Int) (path : String) :
    vault.step answer (session, ledger) (.inspect worker path) =
      (.ok (.info (Stacks.info path (archive.stacked ledger))), session, ledger) := by
  have told : Vault.infoOf (Fossil.parse path).fossil (stateOf (Fossil.parse path).name
      (ledger.entries (Fossil.parse path).name true (Fossil.parse path).fossil)) =
        Stacks.info path (archive.stacked ledger) := by
    rw [entries_eq, Catalog.listing_exact id rfl]
    exact (infoOf_shelf id _ _ rfl).trans (Catalog.info_contents id ledger.names path).symm
  rw [← told]
  rfl

theorem run_list (session : Session) (worker : Int) (directory : String) :
    (Vault.list worker directory).run answer session ledger =
      (.ok (Stacks.listing directory (archive.stacked ledger)), session, ledger) := by
  have visible (stem : String) : (ledger.entries stem false false).map (·.name) =
      (Stacks.visible stem (archive.stacked ledger)).map (·.name) :=
    Catalog.visible_contents id id stem ledger.names
  have chunks (stem : String) : Vault.chunkListing stem (ledger.entries stem false true) = {
      files := (Stacks.tops stem (archive.stacked ledger)).map fun entry =>
        Fossil.project (Text.skip stem.length entry.name) entry.state
      sizes := (Stacks.tops stem (archive.stacked ledger)).map (·.size) } :=
    Catalog.chunkListing_contents id stem ledger.names fun shelf _ => show (id shelf.2).head? = _ from rfl
  unfold Vault.list Stacks.listing
  simp only
  split
  · rw [← Vault.snapshotListing_congr _ (visible _)]
    rfl
  · split
    · rw [← chunks]
      rfl
    · rw [← Vault.plainListing_congr _ (visible _)]
      rfl

theorem step_list (session : Session) (worker : Int) (directory : String) :
    vault.step answer (session, ledger) (.list worker directory) =
      (.ok (.listing (Stacks.listing directory (archive.stacked ledger))), session, ledger) := by
  rw [Vault.step, Vault.perform, Program.run_bind, run_list]
  rfl

/-- A look at a path finds a file of this size. -/
def Finds (viewer : Int) (look : Session) (path : String) (size : Int) : Prop :=
  ∃ info : FileInfo, (vault.step answer (look, ledger) (.inspect viewer path)).1 = .ok (.info info) ∧
    info.present = true ∧ info.size = size

/-- A look at a path finds no file. -/
def Misses (viewer : Int) (look : Session) (path : String) : Prop :=
  ∃ info : FileInfo, (vault.step answer (look, ledger) (.inspect viewer path)).1 = .ok (.info info) ∧
    info.present = false

variable {vault ledger} {viewer : Int} {look : Session} {name path : String} {size : Int}

/-- A look finds a file, or it tells nothing but that there is none. -/
theorem info_cases (path : String) (stacked : Stacks) :
    (∃ size, Stacks.info path stacked = ⟨true, false, size⟩) ∨
      Stacks.info path stacked = ⟨false, false, 0⟩ := by
  have cases (fossil : Bool) (state : Option State) :
      (∃ size, Vault.infoOf fossil state = ⟨true, false, size⟩) ∨
        Vault.infoOf fossil state = ⟨false, false, 0⟩ := by
    cases state with
    | none => exact .inr rfl
    | some state =>
      by_cases asked : state.isHidden = fossil
      · exact .inl ⟨state.size, if_pos asked⟩
      · exact .inr (if_neg asked)
  exact cases _ _

theorem finds_iff :
    ledger.Finds vault viewer look path size ↔
      Stacks.info path (archive.stacked ledger) = ⟨true, false, size⟩ := by
  simp only [Finds, step_inspect, Except.ok.injEq, Answer.info.injEq]
  constructor
  · rintro ⟨info, rfl, present, rfl⟩
    rcases info_cases path (archive.stacked ledger) with ⟨size, found⟩ | absent
    · rw [found]
    · rw [absent] at present
      cases present
  · intro found
    exact ⟨_, found, rfl, rfl⟩

theorem misses_iff :
    ledger.Misses vault viewer look path ↔
      Stacks.info path (archive.stacked ledger) = ⟨false, false, 0⟩ := by
  simp only [Misses, step_inspect, Except.ok.injEq, Answer.info.injEq]
  constructor
  · rintro ⟨info, rfl, absent⟩
    rcases info_cases path (archive.stacked ledger) with ⟨size, found⟩ | missing
    · rw [found] at absent
      cases absent
    · exact missing
  · intro missing
    exact ⟨_, missing, rfl⟩

theorem history_stacked (ledger : Ledger) (name : String) :
    (archive.stacked ledger).history name = (ledger.history name).map Version.content :=
  Catalog.history_contents id ledger.names name

theorem finds_content_iff (bare : Fossil.isFossil name = false) :
    ledger.Finds vault viewer look name size ↔
      ∃ version older content, ledger.history name = version :: older ∧
        version.content = some content ∧ content.length = size := by
  rw [finds_iff, Stacks.info_bare_iff bare, Stacks.held, history_stacked]
  rcases ledger.history name with - | ⟨⟨id, - | content⟩, older⟩ <;> simp

/-- A bare name is found exactly if its newest version is a content. -/
theorem exists_finds_iff (bare : Fossil.isFossil name = false) :
    (∃ size, ledger.Finds vault viewer look name size) ↔
      (ledger.history name).head?.any (!·.isHidden) = true := by
  simp only [finds_content_iff bare]
  rcases ledger.history name with - | ⟨⟨id, - | content⟩, older⟩ <;> simp [Version.isHidden]

theorem finds_fossil_iff :
    ledger.Finds vault viewer look (Fossil.fossilOf name) size ↔
      ∃ marker older, ledger.history name = marker :: older ∧ marker.isHidden = true ∧ 0 = size := by
  rw [finds_iff, Stacks.info_fossil_iff, Stacks.held, history_stacked]
  rcases ledger.history name with - | ⟨⟨id, - | content⟩, older⟩ <;> simp [Version.isHidden]

/-- A path is missed exactly if nothing is found there. -/
theorem misses_iff_not_finds :
    ledger.Misses vault viewer look path ↔ ∀ size, ¬ ledger.Finds vault viewer look path size := by
  simp only [misses_iff, finds_iff]
  rcases info_cases path (archive.stacked ledger) with ⟨size, found⟩ | missing
  · rw [found]
    simp
  · rw [missing]
    simp

/-! ### Agreement -/

/-- No stored name ends like a fossil. -/
def Plain (ledger : Ledger) : Prop :=
  ∀ name, ledger.history name ≠ [] → Fossil.isFossil name = false

theorem stacked_ne_nil_iff {name : String} :
    (archive.stacked ledger).history name ≠ [] ↔ ledger.history name ≠ [] := by
  rw [history_stacked, ne_eq, List.map_eq_nil_iff]

/-- The remainders of the stored names under `stem`. -/
theorem mem_rests_iff {stem rest : String} :
    rest ∈ Stacks.rests stem (archive.stacked ledger) ↔ ledger.history (stem ++ rest) ≠ [] :=
  Stacks.mem_rests_iff.trans stacked_ne_nil_iff

theorem Plain.stacked (plain : ledger.Plain) : (archive.stacked ledger).Plain := by
  intro name stored
  exact plain name (stacked_ne_nil_iff.mp stored)

theorem plain_of_shelves (plain : ∀ shelf ∈ ledger.names.shelves, Fossil.isFossil shelf.1 = false) :
    ledger.Plain := by
  intro name stored
  exact plain _ (Catalog.mem_of_lookup stored)

theorem isSome_held {name : String} (stored : ledger.history name ≠ []) :
    (Stacks.held name (archive.stacked ledger)).isSome =
      !((ledger.history name).head?.any Version.isHidden) := by
  rw [Stacks.held, history_stacked]
  obtain ⟨⟨id, content⟩, older, stack⟩ := List.exists_cons_of_ne_nil stored
  rw [stack]
  cases content <;> rfl

/-- **A listing and the looks at its paths agree.** Of the chunks, a path is listed with a size exactly
if a look at it finds a file of that size, bare or a fossil, each stored name giving one path; of every
other directory, the bare paths that are listed are those at which a look finds a file. -/
theorem listing_agrees (vault : Vault) {ledger : Ledger} (plain : ledger.Plain) {bare : String}
    (stripped : Text.endsWith bare "/" = false) (slashes : Nat) (worker viewer : Int)
    (session look : Session) :
    let directory := bare ++ String.ofList (List.replicate slashes '/')
    let stem := if bare = "" then "" else bare ++ "/"
    ∃ listing : Listing,
      vault.step answer (session, ledger) (.list worker directory) =
        (.ok (.listing listing), session, ledger) ∧
      (bare = "chunks" →
        listing.files.length = listing.sizes.length ∧ listing.files.Nodup ∧
        (∀ path size,
          (∃ index : Nat, listing.files[index]? = some path ∧ listing.sizes[index]? = some size) ↔
            ledger.Finds vault viewer look (stem ++ path) size) ∧
        ∃ rests : List String, (rests.map (stem ++ ·)).Pairwise (· < ·) ∧
          (∀ rest, rest ∈ rests ↔ ledger.history (stem ++ rest) ≠ []) ∧
          listing.files = rests.map fun rest =>
            if (ledger.history (stem ++ rest)).head?.any Version.isHidden then Fossil.fossilOf rest
            else rest) ∧
      (bare ≠ "chunks" → bare ≠ "snapshots" →
        listing.files.Pairwise (· < ·) ∧ listing.sizes = [] ∧
        ∀ path, Fossil.isFossil path = false →
          (path ∈ listing.files ↔ ∃ size, ledger.Finds vault viewer look (stem ++ path) size)) := by
  intro directory stem
  have trimmed : Vault.bareDirectory directory = bare := Text.trimEnd_append_replicate stripped slashes
  rw [show stem = Vault.stemOf bare from (Vault.stemOf_eq bare).symm]
  refine ⟨Stacks.listing directory (archive.stacked ledger), step_list vault ledger session worker directory,
    ?_, ?_⟩
  · rintro rfl
    rw [Stacks.listing_chunks trimmed]
    refine ⟨by rw [List.length_map, List.length_map], Stacks.nodup_files (plain.stacked.plainIn _), ?_,
      Stacks.rests (Vault.stemOf "chunks") (archive.stacked ledger), ?_, ?_, ?_⟩
    · intro path size
      rw [finds_iff, ← Stacks.mem_files_iff (plain.stacked.plainIn _)]
      simp only [List.getElem?_map, Option.map_eq_some_iff]
      constructor
      · rintro ⟨index, ⟨rest, at_index, same⟩, rest', at_index', same'⟩
        obtain rfl := Option.some.inj (at_index.symm.trans at_index')
        exact ⟨rest, List.mem_of_getElem? at_index, same, same'⟩
      · rintro ⟨rest, among, same, same'⟩
        obtain ⟨index, at_index⟩ := List.mem_iff_getElem?.mp among
        exact ⟨index, ⟨rest, at_index, same⟩, rest, at_index, same'⟩
    · rw [List.pairwise_map]
      exact (Stacks.pairwise_rests _ _).imp Text.append_lt_append_iff.mpr
    · intro rest
      exact mem_rests_iff
    · refine List.map_congr_left ?_
      intro rest among
      rw [Stacks.file, isSome_held (mem_rests_iff.mp among)]
      cases (ledger.history (Vault.stemOf "chunks" ++ rest)).head?.any Version.isHidden <;> rfl
  · intro notChunks notSnapshots
    rw [Stacks.listing_plain trimmed notChunks notSnapshots]
    refine ⟨(Stacks.pairwise_rests _ _).filter _, rfl, ?_⟩
    intro path notFossil
    simp only [finds_iff]
    exact Stacks.mem_shown_iff notFossil _

/-- A chunk that is hidden and one that is not, in a directory named with slashes behind it. -/
theorem listing_agrees_with_fossil :
    let ledger := (Vault.after {} answer [.upload 0 "chunks/a" [1, 2], .upload 0 "chunks/b" [3],
      .move 0 "chunks/b" "chunks/b.fsl", .upload 0 "snapshots/1" [4]] ({}, {})).2
    ledger.Plain ∧ Text.endsWith "chunks" "/" = false ∧
      ∃ listing : Listing,
        Vault.step {} answer ({}, ledger) (.list 0 "chunks//") = (.ok (.listing listing), {}, ledger) ∧
        (∃ index : Nat, listing.files[index]? = some "b.fsl" ∧ listing.sizes[index]? = some 0) ∧
        ledger.Finds {} 1 {} "chunks/b.fsl" 0 := by
  intro ledger
  have plain : ledger.Plain := plain_of_shelves (by decide)
  have stripped : Text.endsWith "chunks" "/" = false := by decide
  obtain ⟨listing, listed, chunks, _⟩ := listing_agrees {} plain stripped 2 0 1 {} {}
  have found : ledger.Finds {} 1 {} "chunks/b.fsl" 0 := finds_iff.mpr (by decide)
  exact ⟨plain, stripped, listing, listed, ((chunks rfl).2.2.1 "b.fsl" 0).mpr found, found⟩

end FossilVault.Ledger
