import FossilVault.Catalog
import FossilVault.Proofs.Sorting
import FossilVault.Remote.Ledger
import FossilVault.Text.Basic
import FossilVault.Version
/-
**Listings of a catalog.** What a remote lists of the versions it keeps, for any type of versions.
The order in which the versions of one name are listed is a parameter: the remotes differ in what
they can promise about it, and most readers of a listing need no more than that the newest version
comes first.

* `Catalog.mem_tops_iff`, `Catalog.pairwise_tops` — the newest versions, one of each name and in
  the order of the names;
* `Catalog.listing_exact` — the listing of one name is its stack in that order;
* `Catalog.listing_prefix` — a listing by prefix starts with the listing of the name itself;
* `Catalog.listing_visible` — a listing without markers holds the newest versions that are none;
* `Catalog.leaders_listing` — the leaders of a listing are the newest versions, whatever the order
  of the older ones.
-/

namespace FossilVault.Catalog

variable {α : Type}

/-- The entries of one name in a listing: all its versions in a given order, or the newest one
unless it is a marker. -/
def shelfListing (version : α → Version) (order : List α → List α) (withHidden : Bool)
    (shelf : String × List α) : List Entry :=
  if withHidden then (order shelf.2).map fun stored => (version stored).entry shelf.1
  else (shelf.2.head?.filter fun newest => !(version newest).isHidden).toList.map fun newest =>
    (version newest).entry shelf.1

/-- The listing of the names that start with `stem`, or of the one name `stem`. -/
def listing (version : α → Version) (order : List α → List α) (stem : String) (exact withHidden : Bool)
    (catalog : Catalog α) : List Entry :=
  (catalog.shelves.filter fun shelf =>
    Text.beginsWith shelf.1 stem && (!exact || shelf.1 == stem)).flatMap
      (shelfListing version order withHidden)

/-- The newest versions of the names that start with `stem`. -/
def tops (version : α → Version) (stem : String) (catalog : Catalog α) : List Entry :=
  (catalog.shelves.filter (Text.beginsWith ·.1 stem)).filterMap fun shelf =>
    shelf.2.head?.map fun newest => (version newest).entry shelf.1

theorem mem_tops_iff {version : α → Version} {stem : String} {catalog : Catalog α} {entry : Entry} :
    entry ∈ catalog.tops version stem ↔
      Text.beginsWith entry.name stem = true ∧
        ∃ newest older, catalog.history entry.name = newest :: older ∧
          entry = (version newest).entry entry.name := by
  rw [tops, List.mem_filterMap]
  constructor
  · rintro ⟨shelf, among, first⟩
    obtain ⟨inside, under⟩ := List.mem_filter.mp among
    obtain ⟨newest, head, rfl⟩ := Option.map_eq_some_iff.mp first
    obtain ⟨older, stack⟩ := List.head?_eq_some_iff.mp head
    exact ⟨under, newest, older, (mem_shelves_iff.mp inside).1.symm.trans stack, rfl⟩
  · rintro ⟨under, newest, older, stack, same⟩
    have inside : (entry.name, catalog.history entry.name) ∈ catalog.shelves :=
      mem_shelves_iff.mpr ⟨rfl, by rw [stack]; exact List.cons_ne_nil _ _⟩
    refine ⟨_, List.mem_filter.mpr ⟨inside, under⟩, ?_⟩
    simp only [stack, List.head?_cons, Option.map_some]
    exact congrArg some same.symm

theorem pairwise_tops (version : α → Version) (stem : String) (catalog : Catalog α) :
    (catalog.tops version stem).Pairwise fun a b => a.name < b.name := by
  rw [tops, List.pairwise_filterMap]
  refine (catalog.ascending.filter _).imp ?_
  intro shelf shelf' before entry first entry' first'
  obtain ⟨newest, _, rfl⟩ := Option.map_eq_some_iff.mp first
  obtain ⟨newest', _, rfl⟩ := Option.map_eq_some_iff.mp first'
  exact before

/-- Among ascending names, those that equal `name` are the one shelf of that name. -/
theorem flatMap_filter_name {β : Type} {shelves : List (String × List α)}
    (ascending : shelves.Pairwise fun a b => a.1 < b.1) (name : String)
    {f : String × List α → List β} (void : f (name, []) = []) :
    (shelves.filter (·.1 == name)).flatMap f = f (name, lookup name shelves) := by
  induction shelves with
  | nil => exact void.symm
  | cons first rest ih =>
    have above := List.pairwise_cons.mp ascending
    by_cases same : first.1 = name
    · have none : rest.filter (·.1 == name) = [] := by
        refine List.filter_eq_nil_iff.mpr ?_
        intro shelf among equal
        have equal : shelf.1 = name := by simpa using equal
        exact String.lt_irrefl name (by simpa [same, equal] using above.1 shelf among)
      subst same
      simp [lookup, none]
    · have different : (first.1 == name) = false := by simpa using same
      rw [List.filter_cons_of_neg (by simp [different]), ih above.2, lookup, if_neg same]

theorem beginsWith_self (text : String) : Text.beginsWith text text = true :=
  Text.beginsWith_iff.mpr ⟨"", (String.append_empty).symm⟩

/-- **The listing of one name is its stack, in the archive's order.** -/
theorem listing_exact (version : α → Version) {order : List α → List α} (void : order [] = [])
    (name : String) (withHidden : Bool) (catalog : Catalog α) :
    catalog.listing version order name true withHidden =
      shelfListing version order withHidden (name, catalog.history name) := by
  have chosen : (fun shelf : String × List α =>
      Text.beginsWith shelf.1 name && (!true || shelf.1 == name)) = (·.1 == name) := by
    funext shelf
    by_cases same : shelf.1 = name
    · simp [same, beginsWith_self]
    · simp [same]
  rw [listing, chosen]
  refine flatMap_filter_name catalog.ascending name ?_
  cases withHidden <;> simp [shelfListing, void]

/-- A listing without markers holds the newest versions that are none. -/
theorem listing_visible (version : α → Version) (order : List α → List α) (stem : String)
    (catalog : Catalog α) :
    catalog.listing version order stem false false =
      (catalog.tops version stem).filter fun entry => !entry.isHidden := by
  simp only [listing, tops, Bool.not_false, Bool.true_or, Bool.and_true]
  induction catalog.shelves.filter (Text.beginsWith ·.1 stem) with
  | nil => rfl
  | cons shelf rest ih =>
    rw [List.flatMap_cons, ih]
    cases held : shelf.2 with
    | nil => simp [shelfListing, held]
    | cons newest older =>
      cases hidden : (version newest).isHidden <;> simp [shelfListing, held, hidden, Option.filter]

theorem leadersAfter_all {last : String} {run rest : List Entry}
    (same : ∀ entry ∈ run, entry.name = last) :
    leadersAfter last (run ++ rest) = leadersAfter last rest := by
  induction run with
  | nil => rfl
  | cons first others ih =>
    rw [List.cons_append, leadersAfter, if_pos (same first (.head _))]
    exact ih fun entry among => same entry (.tail _ among)

/-- After an entry of another name a list leads as if it came first. -/
theorem leadersAfter_of_ne {last : String} {entries : List Entry}
    (different : ∀ entry ∈ entries, entry.name ≠ last) :
    leadersAfter last entries = leaders entries := by
  cases entries with
  | nil => rfl
  | cons first rest => rw [leadersAfter, if_neg (different first (.head _)), leaders]

theorem name_of_mem_shelfListing {version : α → Version} {order : List α → List α}
    {withHidden : Bool} {shelf : String × List α} {entry : Entry}
    (among : entry ∈ shelfListing version order withHidden shelf) : entry.name = shelf.1 := by
  unfold shelfListing at among
  split at among <;>
  · obtain ⟨stored, _, rfl⟩ := List.mem_map.mp among
    rfl

/-- **A listing by prefix starts with the listing of the name itself**, for a name comes before all longer
names that start with it. -/
theorem listing_prefix (version : α → Version) (order : List α → List α) (name : String)
    (withHidden : Bool) (catalog : Catalog α) :
    ∃ longer, catalog.listing version order name false withHidden =
        catalog.listing version order name true withHidden ++ longer ∧
      ∀ entry ∈ longer, entry.name ≠ name := by
  have last : (catalog.shelves.filter (Text.beginsWith ·.1 name)).Pairwise fun shelf later =>
      (shelf.1 != name) = true → (later.1 != name) = true := by
    refine (catalog.ascending.filter _).imp_of_mem ?_
    intro shelf later among _ before different
    obtain ⟨more, whole⟩ := Text.beginsWith_iff.mp (List.mem_filter.mp among).2
    have goesOn : more ≠ "" := by
      rintro rfl
      exact bne_iff_ne.mp different (whole.trans String.append_empty)
    have below : name < shelf.1 := whole ▸ Text.lt_append goesOn
    exact bne_iff_ne.mpr (String.ne_of_lt (String.lt_trans below before)).symm
  have named : (fun shelf : String × List α => !(shelf.1 != name)) = (·.1 == name) := by
    funext shelf
    exact Bool.not_not _
  have split := Sorting.kindLast_eq_self last
  rw [Sorting.kindLast, named, List.filter_filter] at split
  have whole : catalog.listing version order name false withHidden =
      (catalog.shelves.filter (Text.beginsWith ·.1 name)).flatMap
        (shelfListing version order withHidden) := by
    simp only [listing, Bool.not_false, Bool.true_or, Bool.and_true]
  have exactly : catalog.listing version order name true withHidden =
      (catalog.shelves.filter fun shelf => shelf.1 == name && Text.beginsWith shelf.1 name).flatMap
        (shelfListing version order withHidden) := by
    simp only [listing, Bool.not_true, Bool.false_or, Bool.and_comm]
  refine ⟨_, by rw [whole, exactly, ← List.flatMap_append, split], ?_⟩
  intro entry among
  obtain ⟨shelf, inside, entries⟩ := List.mem_flatMap.mp among
  rw [name_of_mem_shelfListing entries]
  exact bne_iff_ne.mp (List.mem_filter.mp inside).2

/-- **The leaders of a listing are the newest versions**, whatever the order of the older ones. -/
theorem leaders_listing (version : α → Version) {order : List α → List α} (stem : String)
    (catalog : Catalog α)
    (newest : ∀ shelf ∈ catalog.shelves, (order shelf.2).head? = shelf.2.head?) :
    leaders (catalog.listing version order stem false true) = catalog.tops version stem := by
  simp only [listing, tops, Bool.not_false, Bool.true_or, Bool.and_true]
  have ascending : (catalog.shelves.filter (Text.beginsWith ·.1 stem)).Pairwise fun a b => a.1 < b.1 :=
    catalog.ascending.filter _
  have newest : ∀ shelf ∈ catalog.shelves.filter (Text.beginsWith ·.1 stem),
      (order shelf.2).head? = shelf.2.head? ∧ shelf.2 ≠ [] := fun shelf among =>
    have inside := (List.mem_filter.mp among).1
    ⟨newest shelf inside, catalog.inhabited shelf inside⟩
  generalize catalog.shelves.filter (Text.beginsWith ·.1 stem) = shelves at ascending newest
  induction shelves with
  | nil => rfl
  | cons shelf rest ih =>
    have above := List.pairwise_cons.mp ascending
    have ih := ih above.2 fun shelf among => newest shelf (.tail _ among)
    obtain ⟨sameHead, full⟩ := newest shelf (.head _)
    obtain ⟨top, older, held⟩ := List.exists_cons_of_ne_nil full
    obtain ⟨others, ordered⟩ : ∃ others, order shelf.2 = top :: others :=
      List.head?_eq_some_iff.mp (by rw [sameHead, held]; rfl)
    have listed : shelfListing version order true shelf =
        (version top).entry shelf.1 :: others.map fun stored => (version stored).entry shelf.1 := by
      simp [shelfListing, ordered]
    -- the run of this name ends where the next, larger name begins
    have later : ∀ entry ∈ rest.flatMap (shelfListing version order true), entry.name ≠ shelf.1 := by
      intro entry among same
      obtain ⟨next, inside, entries⟩ := List.mem_flatMap.mp among
      have name := name_of_mem_shelfListing entries
      exact String.lt_irrefl shelf.1 (by simpa [← name, same] using above.1 next inside)
    rw [List.flatMap_cons, listed, List.cons_append, leaders_cons, Version.entry_name,
      leadersAfter_all (by simp), leadersAfter_of_ne later, ih, List.filterMap_cons]
    simp [held]

end FossilVault.Catalog
