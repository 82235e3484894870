import FossilVault.Proofs.Catalog.Listing
import FossilVault.Proofs.Stack
/-
**Views.** What a vault shows of its stacks: whether a file is there, what a directory holds, and
what a download gives. Nothing of it depends on identifiers, nor on any version but the newest of
each name.

* `Catalog.info_contents`, `Catalog.tops_contents` — the views of the contents are what the vault
  makes of versions and of their listings;
* `Catalog.visible_contents`, `Catalog.chunkListing_contents` — a listing shows the contents only.
-/

namespace FossilVault

/-- The stack of every name: a content is `some`, a marker `none`. -/
abbrev Stacks := Catalog (Option Bytes)

namespace Stacks

/-- A content as a version whose identifier is of no account. -/
def unnamed (content : Option Bytes) : Version :=
  ⟨"", content⟩

/-- What is known of a file. -/
def info (path : String) (stacked : Stacks) : FileInfo :=
  let logical := Fossil.parse path
  Vault.infoOf logical.fossil <|
    (stacked.history logical.name).head?.map fun newest => ((unnamed newest).entry logical.name).state

/-- The newest versions under `stem`, one for each name. -/
def tops (stem : String) (stacked : Stacks) : List Entry :=
  Catalog.tops unnamed stem stacked

/-- The newest versions under `stem` that are no markers. -/
def visible (stem : String) (stacked : Stacks) : List Entry :=
  (tops stem stacked).filter fun entry => !entry.isHidden

/-- What a directory holds: the identifiers of the snapshots, the chunks with their fossils and
sizes, or the names of the files. -/
def listing (directory : String) (stacked : Stacks) : Listing :=
  let bare := Vault.bareDirectory directory
  let stem := Vault.stemOf bare
  if bare = Vault.snapshotsDirectory then Vault.snapshotListing stem (visible stem stacked)
  else if bare = Vault.chunksDirectory then {
    files := (tops stem stacked).map fun entry =>
      Fossil.project (Text.skip stem.length entry.name) entry.state
    sizes := (tops stem stacked).map (·.size) }
  else Vault.plainListing stem (visible stem stacked)

/-- What a download of a name gives. -/
def held (name : String) (stacked : Stacks) : Option Bytes :=
  (stacked.history name).head?.join

end Stacks

/-! ### Listings by their names -/

namespace Vault

theorem snapshotListing_congr (stem : String) {entries entries' : List Entry}
    (same : entries.map (·.name) = entries'.map (·.name)) :
    snapshotListing stem entries = snapshotListing stem entries' := by
  have cut : ∀ listed : List Entry, snapshotListing stem listed =
      { files := sortedNames ((listed.map (·.name)).map fun name =>
        Text.upTo '/' (Text.skip stem.length name) ++ "/") } := fun listed => by
    rw [snapshotListing, List.map_map]
    rfl
  rw [cut, cut, same]

theorem plainListing_congr (stem : String) {entries entries' : List Entry}
    (same : entries.map (·.name) = entries'.map (·.name)) :
    plainListing stem entries = plainListing stem entries' := by
  have cut : ∀ listed : List Entry, plainListing stem listed =
      { files := (listed.map (·.name)).map (Text.skip stem.length) } := fun listed => by
    rw [plainListing, List.map_map]
    rfl
  rw [cut, cut, same]

end Vault

/-! ### Versions and their contents -/

namespace Catalog

variable {α : Type}

/-- The contents of a catalog of versions. -/
def contents (version : α → Version) (catalog : Catalog α) : Stacks :=
  catalog.map fun stored => (version stored).content

theorem history_contents (version : α → Version) (catalog : Catalog α) (name : String) :
    (catalog.contents version).history name =
      (catalog.history name).map fun stored => (version stored).content :=
  history_map _ catalog name

/-- Two versions with the same content show the same. -/
theorem infoOf_unnamed (fossil : Bool) (name : String) (version : Version) :
    Vault.infoOf fossil (some ((Stacks.unnamed version.content).entry name).state) =
      Vault.infoOf fossil (some (version.entry name).state) := by
  simp [Vault.infoOf, Stacks.unnamed, Version.entry, Version.isHidden, Version.size, Entry.isHidden]

theorem info_contents (version : α → Version) (catalog : Catalog α) (path : String) :
    Stacks.info path (catalog.contents version) =
      Vault.infoOf (Fossil.parse path).fossil ((catalog.history (Fossil.parse path).name).head?.map
        fun newest => ((version newest).entry (Fossil.parse path).name).state) := by
  rw [Stacks.info, history_contents, List.head?_map]
  cases (catalog.history (Fossil.parse path).name).head? with
  | none => rfl
  | some newest => exact infoOf_unnamed _ _ (version newest)

/-- The newest contents are the newest versions without their identifiers. -/
theorem tops_contents (version : α → Version) (stem : String) (catalog : Catalog α) :
    Stacks.tops stem (catalog.contents version) =
      (catalog.tops version stem).map fun entry => { entry with id := "" } := by
  simp only [Stacks.tops, tops, contents, map, List.filter_map, List.filterMap_map, List.map_filterMap]
  refine congrArg (fun f => List.filterMap f _) (funext ?_)
  intro shelf
  simp only [Function.comp_apply, List.head?_map, Option.map_map]
  rfl

/-- The names that a listing without markers shows are those of the visible contents. -/
theorem visible_contents (version : α → Version) (order : List α → List α) (stem : String)
    (catalog : Catalog α) :
    (catalog.listing version order stem false false).map (·.name) =
      (Stacks.visible stem (catalog.contents version)).map (·.name) := by
  rw [listing_visible, Stacks.visible, tops_contents, List.filter_map, List.map_map]
  rfl

/-- What the chunks look like does not depend on identifiers. -/
theorem chunkListing_contents (version : α → Version) {order : List α → List α} (stem : String)
    (catalog : Catalog α)
    (newest : ∀ shelf ∈ catalog.shelves, (order shelf.2).head? = shelf.2.head?) :
    Vault.chunkListing stem (catalog.listing version order stem false true) = {
      files := (Stacks.tops stem (catalog.contents version)).map fun entry =>
        Fossil.project (Text.skip stem.length entry.name) entry.state
      sizes := (Stacks.tops stem (catalog.contents version)).map (·.size) } := by
  rw [Vault.chunkListing, leaders_listing version stem catalog newest, tops_contents, List.map_map,
    List.map_map]
  refine congrArg (fun files => Listing.mk files _) (List.map_congr_left ?_)
  intro entry _
  simp [Fossil.project, Entry.isHidden]

end Catalog

end FossilVault
