import FossilVault.Proofs.Projection
import FossilVault.Proofs.View
/-
**Directories.** A listing goes through all stored names at once, a look at a path asks for one name.
The two meet at the newest version of each name, and they agree as long as no stored name ends like a
fossil: such a name would be listed as the fossil that it is not.

* `Stacks.mem_rests_iff`, `Stacks.pairwise_rests` — the stored names of a directory, each once and in
  ascending order;
* `Stacks.info_bare_iff`, `Stacks.info_fossil_iff` — what a look at a path tells;
* `Stacks.listing_chunks`, `Stacks.listing_plain`, `Stacks.listing_snapshots` — what a directory lists of
  its stored names;
* `Stacks.mem_files_iff`, `Stacks.mem_shown_iff` — a path is listed exactly if a look at it finds a file;
* `Stacks.plainIn_iff` — how a stored name that ends like a fossil shows.
-/

namespace FossilVault

theorem Vault.stemOf_eq (bare : String) : stemOf bare = if bare = "" then "" else bare ++ "/" := by
  by_cases root : bare = ""
  · rw [if_pos root, root]
    rfl
  · rw [if_neg root, stemOf, if_neg (by simpa [String.isEmpty_iff] using root)]

/-- The slash before the last part of a path keeps the suffix of a fossil within that part. -/
theorem Fossil.isFossil_stem (bare rest : String) :
    isFossil (Vault.stemOf bare ++ rest) = isFossil rest := by
  rw [Vault.stemOf_eq]
  by_cases root : bare = ""
  · rw [if_pos root, String.empty_append]
  · rw [if_neg root, Bool.eq_iff_iff, isFossil_iff, isFossil_iff]
    constructor
    · rintro ⟨name, same⟩
      have same : bare.toList ++ '/' :: rest.toList = name.toList ++ suffix.toList := by
        simpa [fossilOf] using congrArg String.toList same
      rcases List.append_eq_append_iff.mp same with ⟨middle, _, behind⟩ | ⟨middle, _, within⟩
      · cases middle with
        | nil => cases behind
        | cons slash start =>
          refine ⟨.ofList start, ?_⟩
          rw [← String.toList_inj, fossilOf, String.toList_append, String.toList_ofList]
          exact (List.cons.inj behind).2
      · have slash : '/' ∈ suffix.toList := within ▸ List.mem_append_right middle (.head _)
        exact absurd slash (by decide)
    · rintro ⟨name, rfl⟩
      exact ⟨bare ++ "/" ++ name, String.append_assoc.symm⟩

namespace Stacks

/-! ### The stored names of a directory -/

/-- No stored name ends like a fossil. -/
def Plain (stacked : Stacks) : Prop :=
  ∀ name, stacked.history name ≠ [] → Fossil.isFossil name = false

/-- What comes behind `stem` in the stored names that start with it. -/
def rests (stem : String) (stacked : Stacks) : List String :=
  (tops stem stacked).map fun entry => Text.skip stem.length entry.name

/-- No stored name of a directory ends like a fossil. -/
def PlainIn (bare : String) (stacked : Stacks) : Prop :=
  ∀ rest ∈ rests (Vault.stemOf bare) stacked, Fossil.isFossil rest = false

/-- The newest version of a name under `stem`. -/
def newest (stem : String) (stacked : Stacks) (rest : String) : Entry :=
  (unnamed (held (stem ++ rest) stacked)).entry (stem ++ rest)

/-- The newest versions are those of the names that are stored. -/
theorem eq_newest {stem : String} {stacked : Stacks} {entry : Entry} (among : entry ∈ tops stem stacked) :
    entry.name = stem ++ Text.skip stem.length entry.name ∧
      entry = newest stem stacked (Text.skip stem.length entry.name) := by
  obtain ⟨under, content, older, stack, same⟩ := Catalog.mem_tops_iff.mp among
  obtain ⟨rest, whole⟩ := Text.beginsWith_iff.mp under
  have cut : Text.skip stem.length entry.name = rest := by rw [whole, Text.skip_append]
  have top : held entry.name stacked = content := by rw [held, stack]; rfl
  rw [cut, newest, ← whole, top]
  exact ⟨rfl, same⟩

theorem tops_rests (stem : String) (stacked : Stacks) :
    tops stem stacked = (rests stem stacked).map (newest stem stacked) := by
  rw [rests, List.map_map]
  refine (List.map_id _).symm.trans (List.map_congr_left ?_)
  intro entry among
  exact (eq_newest among).2

theorem mem_rests_iff {stem rest : String} {stacked : Stacks} :
    rest ∈ rests stem stacked ↔ stacked.history (stem ++ rest) ≠ [] := by
  constructor
  · intro among
    obtain ⟨entry, inside, rfl⟩ := List.mem_map.mp among
    obtain ⟨_, content, older, stack, _⟩ := Catalog.mem_tops_iff.mp inside
    rw [← (eq_newest inside).1, stack]
    exact List.cons_ne_nil _ _
  · intro stored
    obtain ⟨content, older, stack⟩ := List.exists_cons_of_ne_nil stored
    have inside : (unnamed content).entry (stem ++ rest) ∈ tops stem stacked :=
      Catalog.mem_tops_iff.mpr ⟨Text.beginsWith_iff.mpr ⟨rest, rfl⟩, content, older, stack, rfl⟩
    exact List.mem_map.mpr ⟨_, inside, Text.skip_append stem rest⟩

theorem plainIn_iff_stored {bare : String} {stacked : Stacks} :
    stacked.PlainIn bare ↔
      ∀ rest, stacked.history (Vault.stemOf bare ++ rest) ≠ [] → Fossil.isFossil rest = false := by
  simp only [PlainIn, mem_rests_iff]

theorem Plain.plainIn {stacked : Stacks} (plain : stacked.Plain) (bare : String) :
    stacked.PlainIn bare := by
  rw [plainIn_iff_stored]
  intro rest stored
  rw [← Fossil.isFossil_stem bare]
  exact plain _ stored

/-- **The stored names of a directory stand in ascending order**, each once. -/
theorem pairwise_rests (stem : String) (stacked : Stacks) :
    (rests stem stacked).Pairwise (· < ·) := by
  rw [rests, List.pairwise_map]
  refine (Catalog.pairwise_tops unnamed stem stacked).imp_of_mem ?_
  intro entry entry' among among' before
  rwa [(eq_newest among).1, (eq_newest among').1, Text.append_lt_append_iff] at before

/-! ### A look at a path -/

/-- A look at a bare path tells nothing but what is held there. -/
theorem info_bare {path : String} (bare : Fossil.isFossil path = false) (stacked : Stacks) :
    info path stacked =
      match held path stacked with
      | some content => ⟨true, false, content.length⟩
      | none => ⟨false, false, 0⟩ := by
  rw [info, Fossil.parse_of_bare bare, held]
  rcases stacked.history path with - | ⟨- | content, older⟩
  · rfl
  · simp [Vault.infoOf, unnamed, Entry.isHidden, Version.entry, Version.isHidden]
  · simp [Vault.infoOf, unnamed, Entry.isHidden, Version.entry, Version.isHidden, Version.size]

theorem info_bare_iff {path : String} (bare : Fossil.isFossil path = false) {stacked : Stacks}
    {size : Int} :
    info path stacked = ⟨true, false, size⟩ ↔
      ∃ content, held path stacked = some content ∧ content.length = size := by
  rw [info_bare bare]
  cases held path stacked <;> simp

theorem info_fossil_iff {name : String} {stacked : Stacks} {size : Int} :
    info (Fossil.fossilOf name) stacked = ⟨true, false, size⟩ ↔
      stacked.history name ≠ [] ∧ held name stacked = none ∧ 0 = size := by
  rw [info, Fossil.parse_fossilOf, held]
  rcases stacked.history name with - | ⟨- | content, older⟩
  · simp [Vault.infoOf]
  · simp [Vault.infoOf, unnamed, Entry.isHidden, Version.entry, Version.isHidden, Version.size]
  · simp [Vault.infoOf, unnamed, Entry.isHidden, Version.entry, Version.isHidden]

/-! ### What a directory lists -/

/-- The file of a stored name: its fossil if its newest version is a marker. -/
def file (stem : String) (stacked : Stacks) (rest : String) : String :=
  if (held (stem ++ rest) stacked).isSome then rest else Fossil.fossilOf rest

/-- The size of the newest version of a stored name. -/
def fileSize (stem : String) (stacked : Stacks) (rest : String) : Int :=
  (((held (stem ++ rest) stacked).map List.length).getD 0 : Nat)

section Files

variable {stem rest : String} {stacked : Stacks} {content : Bytes}

theorem file_some (newest : held (stem ++ rest) stacked = some content) :
    file stem stacked rest = rest := by
  rw [file, newest]
  rfl

theorem file_none (newest : held (stem ++ rest) stacked = none) :
    file stem stacked rest = Fossil.fossilOf rest := by
  rw [file, newest]
  rfl

theorem file_eq_path (stem : String) (stacked : Stacks) (rest : String) :
    file stem stacked rest = Fossil.Logical.path ⟨rest, (held (stem ++ rest) stacked).isNone⟩ := by
  rw [file, Fossil.Logical.path]
  cases held (stem ++ rest) stacked <;> rfl

theorem fileSize_some (newest : held (stem ++ rest) stacked = some content) :
    fileSize stem stacked rest = content.length := by
  rw [fileSize, newest]
  rfl

theorem fileSize_none (newest : held (stem ++ rest) stacked = none) : fileSize stem stacked rest = 0 := by
  rw [fileSize, newest]
  rfl

theorem mem_rests_of_held (newest : held (stem ++ rest) stacked = some content) :
    rest ∈ rests stem stacked := by
  rw [mem_rests_iff]
  intro void
  rw [held, void] at newest
  cases newest

end Files

theorem listing_chunks {directory : String} (chunks : Vault.bareDirectory directory = "chunks")
    (stacked : Stacks) :
    listing directory stacked = {
      files := (rests (Vault.stemOf "chunks") stacked).map (file (Vault.stemOf "chunks") stacked)
      sizes := (rests (Vault.stemOf "chunks") stacked).map (fileSize (Vault.stemOf "chunks") stacked) } := by
  simp only [listing, chunks]
  rw [if_neg (by decide), if_pos (by decide), tops_rests, List.map_map, List.map_map]
  refine congrArg (fun files => Listing.mk files _) (List.map_congr_left ?_)
  intro rest _
  show Fossil.project (Text.skip _ (Vault.stemOf "chunks" ++ rest)) _ = _
  rw [Text.skip_append, Fossil.project, file, newest]
  cases held (Vault.stemOf "chunks" ++ rest) stacked <;> rfl

/-- The visible versions are those of the stored names with a content on top. -/
theorem map_visible (stem : String) (stacked : Stacks) :
    (visible stem stacked).map (fun entry => Text.skip stem.length entry.name) =
      (rests stem stacked).filter fun rest => (held (stem ++ rest) stacked).isSome := by
  rw [visible, tops_rests, List.filter_map, List.map_map]
  have kept : ((fun entry : Entry => !entry.isHidden) ∘ newest stem stacked) =
      fun rest => (held (stem ++ rest) stacked).isSome := by
    funext rest
    show (!((unnamed _).entry _).isHidden) = _
    rw [Version.entry_isHidden]
    cases held _ stacked <;> rfl
  have shown : ((fun entry : Entry => Text.skip stem.length entry.name) ∘ newest stem stacked) = id := by
    funext rest
    exact Text.skip_append _ rest
  rw [kept, shown, List.map_id]

theorem listing_plain {directory bare : String} (stripped : Vault.bareDirectory directory = bare)
    (notChunks : bare ≠ "chunks") (notSnapshots : bare ≠ "snapshots") (stacked : Stacks) :
    listing directory stacked = {
      files := (rests (Vault.stemOf bare) stacked).filter fun rest =>
        (held (Vault.stemOf bare ++ rest) stacked).isSome } := by
  simp only [listing, stripped]
  rw [if_neg (show bare ≠ Vault.snapshotsDirectory from notSnapshots),
    if_neg (show bare ≠ Vault.chunksDirectory from notChunks), Vault.plainListing, map_visible]

theorem listing_snapshots {directory : String} (snapshots : Vault.bareDirectory directory = "snapshots")
    (stacked : Stacks) :
    listing directory stacked = {
      files := Vault.sortedNames <| ((rests (Vault.stemOf "snapshots") stacked).filter fun rest =>
        (held (Vault.stemOf "snapshots" ++ rest) stacked).isSome).map fun rest =>
          Text.upTo '/' rest ++ "/" } := by
  simp only [listing, snapshots]
  rw [if_pos (show "snapshots" = Vault.snapshotsDirectory from rfl), Vault.snapshotListing, ← map_visible,
    List.map_map]
  rfl

section Agreement

variable {bare : String} {stacked : Stacks} (plain : stacked.PlainIn bare)

include plain

/-- **The files of a directory are different**: a fossil is not taken for a stored name. -/
theorem nodup_files :
    ((rests (Vault.stemOf bare) stacked).map (file (Vault.stemOf bare) stacked)).Nodup := by
  rw [List.Nodup, List.pairwise_map]
  refine (pairwise_rests (Vault.stemOf bare) stacked).imp_of_mem ?_
  intro rest rest' stored stored' before same
  rw [file_eq_path, file_eq_path, Fossil.Logical.path_eq_iff] at same
  rcases same with equal | collides | collides
  · exact String.ne_of_lt before (congrArg Fossil.Logical.name equal)
  · exact absurd collides.isFossil (Bool.eq_false_iff.mp (plain rest' stored'))
  · exact absurd collides.isFossil (Bool.eq_false_iff.mp (plain rest stored))

/-- **A path is listed with a size exactly if a look at it tells that size**, be it a fossil's or not. -/
theorem mem_files_iff {path : String} {size : Int} :
    (∃ rest ∈ rests (Vault.stemOf bare) stacked, file (Vault.stemOf bare) stacked rest = path ∧
        fileSize (Vault.stemOf bare) stacked rest = size) ↔
      info (Vault.stemOf bare ++ path) stacked = ⟨true, false, size⟩ := by
  rcases Bool.eq_false_or_eq_true (Fossil.isFossil path) with fossil | notFossil
  · obtain ⟨name, rfl⟩ := Fossil.isFossil_iff.mp fossil
    have whole : Vault.stemOf bare ++ Fossil.fossilOf name = Fossil.fossilOf (Vault.stemOf bare ++ name) :=
      String.append_assoc.symm
    rw [whole, info_fossil_iff, ← mem_rests_iff]
    constructor
    · rintro ⟨rest, stored, same, rfl⟩
      cases newest : held (Vault.stemOf bare ++ rest) stacked with
      | some content =>
        rw [file_some newest] at same
        rw [← same, plain rest stored] at fossil
        cases fossil
      | none =>
        rw [file_none newest] at same
        obtain rfl := Text.append_left_inj.mp same
        exact ⟨stored, newest, (fileSize_none newest).symm⟩
    · rintro ⟨stored, newest, rfl⟩
      exact ⟨name, stored, file_none newest, fileSize_none newest⟩
  · rw [info_bare_iff ((Fossil.isFossil_stem bare path).trans notFossil)]
    constructor
    · rintro ⟨rest, stored, same, rfl⟩
      cases newest : held (Vault.stemOf bare ++ rest) stacked with
      | some content =>
        obtain rfl := (file_some newest).symm.trans same
        exact ⟨content, newest, (fileSize_some newest).symm⟩
      | none =>
        rw [← same, file_none newest, Fossil.isFossil_fossilOf] at notFossil
        cases notFossil
    · rintro ⟨content, newest, rfl⟩
      exact ⟨path, mem_rests_of_held newest, file_some newest, fileSize_some newest⟩

end Agreement

/-- **A bare path is shown exactly if a look at it finds a file.** -/
theorem mem_shown_iff {bare path : String} (notFossil : Fossil.isFossil path = false) (stacked : Stacks) :
    path ∈ ((rests (Vault.stemOf bare) stacked).filter fun rest =>
        (held (Vault.stemOf bare ++ rest) stacked).isSome) ↔
      ∃ size, info (Vault.stemOf bare ++ path) stacked = ⟨true, false, size⟩ := by
  rw [List.mem_filter]
  simp only [info_bare_iff ((Fossil.isFossil_stem bare path).trans notFossil)]
  constructor
  · rintro ⟨_, active⟩
    obtain ⟨content, newest⟩ := Option.isSome_iff_exists.mp active
    exact ⟨_, content, newest, rfl⟩
  · rintro ⟨_, content, newest, _⟩
    exact ⟨mem_rests_of_held newest, by rw [newest]; rfl⟩

/-! ### Names that end like fossils -/

section Ambiguity

variable {bare : String} {stacked : Stacks}

/-- A stored name that ends like a fossil is listed as it is if it holds no marker. -/
theorem file_fossilOf (marked : ∀ name, none ∈ stacked.history name → Fossil.isFossil name = false)
    {name : String} (stored : Fossil.fossilOf name ∈ rests (Vault.stemOf bare) stacked) :
    file (Vault.stemOf bare) stacked (Fossil.fossilOf name) = Fossil.fossilOf name := by
  obtain ⟨top, older, stack⟩ := List.exists_cons_of_ne_nil (mem_rests_iff.mp stored)
  cases top with
  | some content => exact file_some (by rw [held, stack]; rfl)
  | none =>
    have notFossil := marked _ (stack ▸ List.mem_cons_self)
    rw [Fossil.isFossil_stem, Fossil.isFossil_fossilOf] at notFossil
    cases notFossil

/-- Where no file is listed twice, stored names with the same file are the same. -/
theorem eq_of_file {stem rest rest' : String}
    (nodup : ((rests stem stacked).map (file stem stacked)).Nodup) (stored : rest ∈ rests stem stacked)
    (stored' : rest' ∈ rests stem stacked) (same : file stem stacked rest = file stem stacked rest') :
    rest = rest' := by
  obtain ⟨index, within, rfl⟩ := List.mem_iff_getElem.mp stored
  obtain ⟨index', within', rfl⟩ := List.mem_iff_getElem.mp stored'
  have shown : ((rests stem stacked).map (file stem stacked))[index]? =
      ((rests stem stacked).map (file stem stacked))[index']? := by
    rw [List.getElem?_map, List.getElem?_map, List.getElem?_eq_getElem within,
      List.getElem?_eq_getElem within', Option.map_some, Option.map_some, same]
  obtain rfl := (List.getElem?_inj (by rwa [List.length_map]) nodup).mp shown
  rfl

/-- **A name that ends like a fossil gives itself away** if it holds no marker: its directory then lists
some path twice, or the fossil of a name where no look finds one. -/
theorem plainIn_iff (marked : ∀ name, none ∈ stacked.history name → Fossil.isFossil name = false) :
    let files := (rests (Vault.stemOf bare) stacked).map (file (Vault.stemOf bare) stacked)
    stacked.PlainIn bare ↔
      files.Nodup ∧ ∀ name, Fossil.fossilOf name ∈ files →
        info (Fossil.fossilOf (Vault.stemOf bare ++ name)) stacked = ⟨true, false, 0⟩ := by
  intro files
  constructor
  · intro plain
    refine ⟨nodup_files plain, ?_⟩
    intro name listed
    obtain ⟨rest, stored, same⟩ := List.mem_map.mp listed
    have found := (mem_files_iff plain).mp ⟨rest, stored, same, rfl⟩
    rw [Fossil.fossilOf, ← String.append_assoc] at found
    obtain ⟨held, newest, _⟩ := info_fossil_iff.mp found
    exact info_fossil_iff.mpr ⟨held, newest, rfl⟩
  · rintro ⟨nodup, found⟩ rest stored
    rcases Bool.eq_false_or_eq_true (Fossil.isFossil rest) with fossil | notFossil
    · obtain ⟨name, rfl⟩ := Fossil.isFossil_iff.mp fossil
      have shown := file_fossilOf marked stored
      -- The fossil that a look finds there is that of another name, which is listed too.
      obtain ⟨held, newest, _⟩ :=
        info_fossil_iff.mp (found name (List.mem_map.mpr ⟨_, stored, shown⟩))
      have same := eq_of_file nodup stored (mem_rests_iff.mpr held) (shown.trans (file_none newest).symm)
      exact absurd same (Fossil.fossilOf_ne name)
    · exact notFossil

end Ambiguity

end Stacks

end FossilVault
