import FossilVault.Proofs.Bucket.Order
import FossilVault.Proofs.Bucket.Posted
import FossilVault.Proofs.Catalog.Listing
/-
**From pages to a listing.** A service lists the rows of its catalog in pages, and in a page the
versions and the markers apart. What a listing makes of any pages with these rows is what the
catalog lists: the pages only interleave rows that the order tells apart.

* `instantOf_dated` — seconds of the calendar are told apart;
* `Row.Lists` — rows that hold the stacks of the names under a stem, the newest version first;
* `Listing.ofPages_rows` — pages of rows are read;
* `Listing.entries_rows` — what they hold is what the catalog lists.
-/

namespace FossilVault.Bucket

/-! ### Instants -/

/-- A second of the years 1 to 9999. -/
def Dated (second : Int) : Prop :=
  -62135596800 ≤ second ∧ second < 253402300800

/-- The units of a second in which instants are compared. -/
def ticks : Int := (Nat.pow 2 72 : Nat)

theorem ticks_pos : 0 < ticks := by decide

/-- **A second of the calendar is its own instant.** -/
theorem instantOf_dated {second : Int} (dated : Dated second) :
    Listing.instantOf (second * 1000000) = second * ticks := by
  have small : second.natAbs < Number.exactLimit := by
    unfold Dated at dated
    unfold Number.exactLimit
    omega
  have held : Number.significant (second.natAbs * Nat.pow 2 72 * 1000000) 1000000 =
      second.natAbs * Nat.pow 2 72 := Number.significant_mul_pow small 72 (by decide)
  have micros : (second * 1000000).natAbs * Nat.pow 2 72 =
      second.natAbs * Nat.pow 2 72 * 1000000 := by
    rw [Int.natAbs_mul, show (1000000 : Int).natAbs = 1000000 from rfl, Nat.mul_right_comm]
  unfold Listing.instantOf ticks
  rw [micros, held]
  generalize Nat.pow 2 72 = scale
  rw [Int.natCast_mul]
  by_cases negative : second < 0
  · rw [if_pos (by omega), ← Int.neg_mul, Int.ofNat_natAbs_of_nonpos (by omega), Int.neg_neg]
  · rw [if_neg (by omega), Int.natAbs_of_nonneg (by omega)]

/-! ### Rows -/

/-- A version as a service lists it under a name. -/
structure Row where
  name : String
  version : Flagged

namespace Row

/-- The row as an item of a page, and whether it is a marker. -/
def item (row : Row) : Bool × Item :=
  (row.version.stored.isMarker, {
    key := some row.name
    id := some row.version.stored.id
    latest := some row.version.latest
    modified := some (row.version.stored.second * 1000000)
    size := if row.version.stored.isMarker then none else some (row.version.stored.size : Int) })

/-- The row as it is read. -/
def listed (row : Row) : Listed where
  entry := row.version.stored.version.entry row.name
  latest := row.version.latest
  instant := row.version.stored.second * ticks

/-- The row as it is posted. -/
def posted (row : Row) : Posted where
  marker := row.version.stored.isMarker
  key := row.name
  id := row.version.stored.id
  latest := some row.version.latest
  modified := row.version.stored.second * 1000000
  size := if row.version.stored.isMarker then none else some (row.version.stored.size : Int)

/-- A row of the calendar is read as it was posted. -/
theorem listed_posted {row : Row} (dated : Dated row.version.stored.second) :
    row.posted.listed = row.listed := by
  obtain ⟨name, ⟨⟨id, second, held⟩, latest⟩⟩ := row
  unfold Posted.listed posted listed
  rw [instantOf_dated dated]
  cases held <;> rfl

/-- The rows of a stack. -/
def ofStack (name : String) (stack : List Stored) : List Row :=
  (Flagged.ofStack stack).map (Row.mk name)

/-- Rows that list the names which start with `stem`: under each of them its stack, the newest
version first. In what order the names come is left open. -/
def Lists (names : Catalog Stored) (stem : String) (rows : List Row) : Prop :=
  ∀ name, rows.filter (·.name == name) =
    if Text.beginsWith name stem then ofStack name (names.history name) else []

/-- The rows of a page, versions first. -/
def pageOrder (rows : List Row) : List Row :=
  rows.filter (fun row => !row.version.stored.isMarker) ++
    rows.filter fun row => row.version.stored.isMarker

theorem mem_pageOrder {rows : List Row} {row : Row} : row ∈ pageOrder rows ↔ row ∈ rows :=
  Sorting.mem_kindLast

end Row

theorem Row.mem_ofStack {name : String} {stack : List Stored} {row : Row}
    (among : row ∈ ofStack name stack) : row.name = name ∧ row.version.stored ∈ stack := by
  obtain ⟨version, inside, rfl⟩ := List.mem_map.mp among
  refine ⟨rfl, ?_⟩
  have stored := List.mem_map_of_mem (f := Flagged.stored) inside
  rwa [Flagged.stored_ofStack] at stored

/-- A listed row is a version of its name. -/
theorem Row.Lists.mem {names : Catalog Stored} {stem : String} {rows : List Row}
    (lists : Lists names stem rows) {row : Row} (among : row ∈ rows) :
    Text.beginsWith row.name stem = true ∧ row.version.stored ∈ names.history row.name := by
  have own : row ∈ rows.filter (·.name == row.name) := List.mem_filter.mpr ⟨among, by simp⟩
  rw [lists row.name] at own
  by_cases starts : Text.beginsWith row.name stem = true
  · rw [if_pos starts] at own
    exact ⟨starts, (mem_ofStack own).2⟩
  · rw [if_neg starts] at own
    cases own

/-- A row as it is read is ordered by its flag, its second and its kind. -/
theorem inOrder_listed (a b : Row) :
    Listing.inOrder a.listed b.listed = a.version.before b.version := by
  have hidden (row : Row) : row.listed.entry.isHidden = row.version.stored.isMarker := by
    rw [Row.listed, Version.entry_isHidden, isHidden_eq, Stored.isSome_version, Bool.not_not]
  have apart (x y : Int) : (x * ticks != y * ticks) = (x != y) := by
    have same : x * ticks = y * ticks ↔ x = y := Int.mul_eq_mul_right_iff (Int.ne_of_gt ticks_pos)
    rw [Bool.eq_iff_iff, bne_iff_ne, bne_iff_ne]
    exact not_congr same
  unfold Listing.inOrder Flagged.before
  rw [hidden, hidden]
  simp only [Row.listed, apart, Int.mul_lt_mul_right ticks_pos]

namespace Listing

/-! ### Reading pages -/

/-- **Pages of rows are read**, each with its versions first. -/
theorem ofPages_rows {cuts : List (List Row)}
    (dated : ∀ cut ∈ cuts, ∀ row ∈ cut, Dated row.version.stored.second) :
    ofPages (cuts.map fun cut => Service.page (cut.map Row.item)) =
      .ok ((cuts.flatMap Row.pageOrder).map Row.listed) := by
  have pages : (cuts.map fun cut => Service.page (cut.map Row.item)) =
      (cuts.map fun cut => cut.map Row.posted).map Posted.page := by
    rw [List.map_map]
    refine List.map_congr_left fun cut _ => ?_
    show _ = Service.page ((cut.map Row.posted).map Posted.item)
    rw [List.map_map]
    rfl
  have kinds (cut : List Row) : Sorting.kindLast Posted.marker (cut.map Row.posted) =
      (Row.pageOrder cut).map Row.posted := by
    rw [Sorting.kindLast, List.filter_map, List.filter_map, Row.pageOrder, List.map_append]
    rfl
  rw [pages, ofPages_posted, List.flatMap_map]
  simp only [kinds]
  rw [← List.map_flatMap, List.map_map]
  refine congrArg Except.ok (List.map_congr_left fun row among => ?_)
  obtain ⟨cut, inside, placed⟩ := List.mem_flatMap.mp among
  exact Row.listed_posted (dated cut inside row (Row.mem_pageOrder.mp placed))

/-! ### Arranging rows -/

section Arranging

variable {names : Catalog Stored} {stem : String} {cuts : List (List Row)}
  (lists : Row.Lists names stem cuts.flatten)

include lists

/-- **The read versions of a name are its stack**, in the order of a listing. -/
theorem versionsOf_rows {name : String} (starts : Text.beginsWith name stem = true) :
    versionsOf name ((cuts.flatMap Row.pageOrder).map Row.listed) =
      (Stored.relist (names.history name)).map fun stored => stored.version.entry name := by
  let le (a b : Row) : Bool := a.version.before b.version
  have trans (a b c : Row) : le a b = true → le b c = true → le a c = true :=
    Flagged.before_trans _ _ _
  have total (a b : Row) : (le a b || le b a) = true := Flagged.before_total _ _
  have levels : ((cuts.flatMap Row.pageOrder).filter (·.name == name)).mergeSort le =
      (Row.ofStack name (names.history name)).mergeSort le := by
    apply Sorting.mergeSort_congr trans total
    intro a
    have rows := lists name
    rw [if_pos starts] at rows
    rw [← rows, Sorting.level, Sorting.level, List.filter_filter, List.filter_filter]
    have one (row : Row) (chosen : (le a row && le row a && row.name == name) = true) :
        row.version.stored.isMarker = a.version.stored.isMarker := by
      simp only [Bool.and_eq_true] at chosen
      exact Flagged.kind_of_level chosen.1.1 chosen.1.2
    exact Sorting.filter_flatMap_kindLast one cuts
  have sorted : (Row.ofStack name (names.history name)).mergeSort le =
      ((Flagged.ofStack (names.history name)).mergeSort Flagged.before).map (Row.mk name) :=
    (List.map_mergeSort (f := Row.mk name) (r := Flagged.before) (s := le) fun a _ b _ => rfl).symm
  have read (rows : List Row) : (rows.map Row.listed).mergeSort inOrder =
      (rows.mergeSort le).map Row.listed := by
    symm
    apply List.map_mergeSort
    intro a _ b _
    exact (inOrder_listed a b).symm
  rw [versionsOf, List.filter_map]
  show ((((cuts.flatMap Row.pageOrder).filter (·.name == name)).map Row.listed).mergeSort
    inOrder).map _ = _
  rw [read, levels, sorted, List.map_map, List.map_map, Stored.relist, List.map_map]
  rfl

/-- The read names are those of the catalog. -/
theorem namesOf_rows :
    namesOf ((cuts.flatMap Row.pageOrder).map Row.listed) =
      (names.shelves.filter (Text.beginsWith ·.1 stem)).map (·.1) := by
  apply Sorting.mergeSort_eraseDups
  · exact List.pairwise_map.mpr (names.ascending.filter _)
  · intro name
    have read : name ∈ ((cuts.flatMap Row.pageOrder).map Row.listed).map (·.entry.name) ↔
        ∃ row ∈ cuts.flatten, row.name = name := by
      rw [List.map_map]
      simp only [List.mem_map, List.mem_flatMap, Row.mem_pageOrder, List.mem_flatten]
      rfl
    rw [read, List.mem_map]
    constructor
    · rintro ⟨row, among, rfl⟩
      obtain ⟨starts, stored⟩ := lists.mem among
      have shelf : (row.name, names.history row.name) ∈ names.shelves :=
        Catalog.mem_shelves_iff.mpr ⟨rfl, List.ne_nil_of_mem stored⟩
      exact ⟨_, List.mem_filter.mpr ⟨shelf, starts⟩, rfl⟩
    · rintro ⟨shelf, place, rfl⟩
      obtain ⟨inside, starts⟩ := List.mem_filter.mp place
      obtain ⟨held, full⟩ := Catalog.mem_shelves_iff.mp inside
      obtain ⟨newest, older, stack⟩ := List.exists_cons_of_ne_nil (held ▸ full)
      have rows := lists shelf.1
      rw [if_pos starts, stack] at rows
      have first : ⟨shelf.1, ⟨newest, true⟩⟩ ∈ cuts.flatten.filter (·.name == shelf.1) := by
        rw [rows]
        exact .head _
      exact ⟨_, (List.mem_filter.mp first).1, rfl⟩

/-- **Read rows are arranged as the catalog lists them.** -/
theorem arrange_rows (exact withHidden : Bool) :
    arrange stem exact withHidden ((cuts.flatMap Row.pageOrder).map Row.listed) =
      names.listing Stored.version Stored.relist stem exact withHidden := by
  rw [arrange, namesOf_rows lists, List.filter_map, List.flatMap_map, Catalog.listing]
  have chosen : (names.shelves.filter (Text.beginsWith ·.1 stem)).filter
      ((fun name => !exact || name == stem) ∘ fun shelf : String × List Stored => shelf.1) =
        names.shelves.filter fun shelf =>
          Text.beginsWith shelf.1 stem && (!exact || shelf.1 == stem) := by
    rw [List.filter_filter]
    apply List.filter_congr
    intro shelf _
    exact Bool.and_comm _ _
  have each : ∀ shelf ∈ (names.shelves.filter (Text.beginsWith ·.1 stem)).filter
      ((fun name => !exact || name == stem) ∘ fun shelf : String × List Stored => shelf.1),
        (let versions := versionsOf shelf.1 ((cuts.flatMap Row.pageOrder).map Row.listed)
          if withHidden then versions
          else (versions.head?.filter fun newest => !newest.isHidden).toList) =
        Catalog.shelfListing Stored.version Stored.relist withHidden shelf := by
    intro shelf among
    obtain ⟨inside, starts⟩ := List.mem_filter.mp (List.mem_filter.mp among).1
    have head : ((Stored.relist shelf.2).map fun stored => stored.version.entry shelf.1).head? =
        shelf.2.head?.map fun stored => stored.version.entry shelf.1 := by
      rw [List.head?_map, Stored.relist_head]
    simp only [versionsOf_rows lists starts, ← (Catalog.mem_shelves_iff.mp inside).1, head,
      Catalog.shelfListing]
    cases shelf.2.head? with
    | none => rfl
    | some newest => cases hidden : newest.version.isHidden <;> simp [Option.filter, hidden]
  rw [← chosen, List.flatMap_def, List.flatMap_def]
  exact congrArg List.flatten (List.map_congr_left each)

/-- **The pages of a listing hold what the catalog lists.** -/
theorem entries_rows (dated : ∀ name, ∀ stored ∈ names.history name, Dated stored.second)
    (exact withHidden : Bool) :
    entries stem exact withHidden (cuts.map fun cut => Service.page (cut.map Row.item)) =
      .ok (names.listing Stored.version Stored.relist stem exact withHidden) := by
  have read := ofPages_rows fun cut (inside : cut ∈ cuts) row among =>
    dated row.name _ (lists.mem (List.mem_flatten.mpr ⟨cut, inside, among⟩)).2
  rw [entries, read, ← arrange_rows lists]
  rfl

end Arranging

end Listing

end FossilVault.Bucket
