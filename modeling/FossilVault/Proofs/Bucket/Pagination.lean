import FossilVault.Proofs.Bucket.Provider
/-
**Pagination.** A service posts items in pages, in each page the versions and the markers apart, and may cut
the pages anywhere. A listing gives the same for every cut: sorting keeps the order of items that it does not
tell apart, and a version and a marker it always tells apart.

* `Posted.Grouped` — the items of each key together, the keys ascending, the newest item of a key first;
* `Posted.grouped_groups` — there are such groups of any items;
* `Listing.arrange_groups` — a listing shows them, whatever the pages were;
* `Connection.list_of_pages` — so does the remote that a bucket is.
-/

namespace FossilVault.Bucket

namespace Posted

/-! ### The order of a listing -/

/-- Tells whether it is said to be the latest item of its key. -/
def isLatest (posted : Posted) : Bool := posted.latest.getD false

/-- Its time as a double of seconds. -/
def instant (posted : Posted) : Int := Listing.instantOf posted.modified

/-- Under one key `a` comes before `b`: the latest first, then the later, then the marker. -/
def Precedes (a b : Posted) : Prop :=
  a.isLatest = true ∧ b.isLatest = false ∨
    a.isLatest = b.isLatest ∧
      (b.instant < a.instant ∨ a.instant = b.instant ∧ a.marker = true ∧ b.marker = false)

/-- Nothing tells the places of `a` and `b` apart. -/
def ties (a b : Posted) : Bool :=
  a.key == b.key && a.isLatest == b.isLatest && a.instant == b.instant && a.marker == b.marker

/-- Items in groups: no item is lost, and each group has all the items of one key. The keys ascend, and each
group is in order, in which items that tie keep the order in which they were posted. -/
structure Grouped (items : List Posted) (groups : List (List Posted)) : Prop where
  perm : groups.flatten.Perm items
  full : ∀ group ∈ groups, group ≠ []
  alike : ∀ group ∈ groups, ∀ a ∈ group, ∀ b ∈ group, a.key = b.key
  ascending : groups.Pairwise fun group group' => ∀ a ∈ group, ∀ b ∈ group', a.key < b.key
  ordered : ∀ group ∈ groups, group.Pairwise fun a b => a.Precedes b ∨ a.ties b = true
  stable : ∀ group ∈ groups, ∀ a ∈ group, group.filter a.ties = items.filter a.ties

/-- The first item of each group, unless it is a marker. -/
def tops (groups : List (List Posted)) : List Posted :=
  (groups.filterMap List.head?).filter fun top => !top.marker

/-- What a listing shows of groups: all items, or their tops. -/
def shown (withHidden : Bool) (groups : List (List Posted)) : List Entry :=
  (if withHidden then groups.flatten else tops groups).map entry

/-! ### Grouping -/

/-- Tells whether `a` may come before `b`. -/
def before (a b : Posted) : Bool :=
  Listing.inOrder a.listed b.listed

theorem before_trans (a b c : Posted) : before a b = true → before b c = true → before a c = true :=
  Listing.inOrder_trans _ _ _

theorem before_total (a b : Posted) : (before a b || before b a) = true :=
  Listing.inOrder_total _ _

theorem before_iff {a b : Posted} : before a b = true ↔
    a.Precedes b ∨ a.isLatest = b.isLatest ∧ a.instant = b.instant ∧ a.marker = b.marker := by
  have hidden (posted : Posted) : posted.listed.entry.isHidden = posted.marker := posted.isHidden_entry
  unfold before Listing.inOrder Precedes
  rw [hidden, hidden]
  show (if a.isLatest != b.isLatest then a.isLatest
    else if a.instant != b.instant then decide (b.instant < a.instant)
    else a.marker || !b.marker) = true ↔ _
  grind

theorem ties_iff {a b : Posted} :
    a.ties b = true ↔ a.key = b.key ∧ before a b = true ∧ before b a = true := by
  simp only [ties, Bool.and_eq_true, beq_iff_eq, before_iff, Precedes]
  grind

/-- The keys of items, each of them once, in ascending order. -/
def keys (items : List Posted) : List String :=
  (items.map key).eraseDups.mergeSort fun a b => decide (a ≤ b)

/-- The items of a key in order. -/
def group (items : List Posted) (key : String) : List Posted :=
  (items.filter (·.key == key)).mergeSort before

/-- The items of each key in order. -/
def groups (items : List Posted) : List (List Posted) :=
  (keys items).map (group items)

theorem mem_keys {items : List Posted} {key : String} :
    key ∈ keys items ↔ ∃ posted ∈ items, posted.key = key := by
  rw [keys, List.mem_mergeSort, List.mem_eraseDups, List.mem_map]

theorem ascending_keys (items : List Posted) : (keys items).Pairwise (· < ·) :=
  Sorting.ascending_mergeSort_eraseDups _

theorem mem_group {items : List Posted} {key : String} {posted : Posted} :
    posted ∈ group items key ↔ posted ∈ items ∧ posted.key = key := by
  rw [group, List.mem_mergeSort, List.mem_filter, beq_iff_eq]

/-- **Items that tie keep their order.** -/
theorem filter_ties_group {items : List Posted} {key : String} {a : Posted} (own : a.key = key) :
    (group items key).filter a.ties = items.filter a.ties := by
  calc
    _ = Sorting.level before a (group items key) := by
      apply List.filter_congr
      intro b among
      rw [Bool.eq_iff_iff, ties_iff, Bool.and_eq_true]
      exact and_iff_right (own.trans (mem_group.mp among).2.symm)
    _ = Sorting.level before a (items.filter (·.key == key)) :=
      Sorting.level_mergeSort before_trans before_total a _
    _ = items.filter a.ties := by
      rw [Sorting.level, List.filter_filter]
      apply List.filter_congr
      intro b _
      rw [Bool.eq_iff_iff, ties_iff, Bool.and_eq_true, Bool.and_eq_true, beq_iff_eq, own]
      exact ⟨fun both => ⟨both.2.symm, both.1⟩, fun both => ⟨both.2, both.1.symm⟩⟩

/-- Different keys have all their items. -/
theorem perm_flatMap_group {keys : List String} (ascending : keys.Pairwise (· < ·)) (items : List Posted) :
    (keys.flatMap (group items)).Perm (items.filter fun posted => keys.contains posted.key) := by
  induction keys with
  | nil => simp
  | cons key rest ih =>
    obtain ⟨below, ascending⟩ := List.pairwise_cons.mp ascending
    have apart : rest.contains key = false := by
      rw [Bool.eq_false_iff]
      exact fun held => String.lt_irrefl _ (below _ (List.contains_iff_mem.mp held))
    have first : items.filter (fun posted => posted.key == key) =
        (items.filter fun posted => (key :: rest).contains posted.key).filter (·.key == key) := by
      rw [List.filter_filter]
      apply List.filter_congr
      intro posted _
      rw [List.contains_cons]
      cases posted.key == key <;> rfl
    have others : items.filter (fun posted => rest.contains posted.key) =
        (items.filter fun posted => (key :: rest).contains posted.key).filter (!·.key == key) := by
      rw [List.filter_filter]
      apply List.filter_congr
      intro posted _
      rw [List.contains_cons]
      by_cases same : posted.key = key
      · rw [same, apart, beq_self_eq_true]
        rfl
      · rw [beq_eq_false_iff_ne.mpr same]
        rfl
    rw [List.flatMap_cons]
    refine ((List.mergeSort_perm _ _).append (ih ascending)).trans ?_
    rw [first, others]
    exact List.filter_append_perm _ _

/-- **There are such groups of any items.** -/
theorem grouped_groups (items : List Posted) : Grouped items (groups items) where
  perm := by
    rw [groups, ← List.flatMap_def]
    refine (perm_flatMap_group (ascending_keys items) items).trans (.of_eq ?_)
    rw [List.filter_eq_self]
    intro posted among
    exact List.contains_iff_mem.mpr (mem_keys.mpr ⟨posted, among, rfl⟩)
  full := by
    intro _ among
    obtain ⟨key, held, rfl⟩ := List.mem_map.mp among
    obtain ⟨posted, inside, own⟩ := mem_keys.mp held
    exact List.ne_nil_of_mem (mem_group.mpr ⟨inside, own⟩)
  alike := by
    intro _ among a first b second
    obtain ⟨key, _, rfl⟩ := List.mem_map.mp among
    rw [(mem_group.mp first).2, (mem_group.mp second).2]
  ascending := by
    refine List.pairwise_map.mpr ((ascending_keys items).imp ?_)
    intro key key' below a first b second
    rwa [(mem_group.mp first).2, (mem_group.mp second).2]
  ordered := by
    intro _ among
    obtain ⟨key, _, rfl⟩ := List.mem_map.mp among
    have sorted := List.pairwise_mergeSort before_trans before_total (items.filter (·.key == key))
    refine List.Pairwise.imp_of_mem ?_ sorted
    intro a b first second earlier
    rcases before_iff.mp earlier with precedes | level
    · exact .inl precedes
    · refine .inr (ties_iff.mpr ⟨?_, earlier, before_iff.mpr (.inr ?_)⟩)
      · rw [(mem_group.mp first).2, (mem_group.mp second).2]
      · exact ⟨level.1.symm, level.2.1.symm, level.2.2.symm⟩
  stable := by
    intro _ among a inside
    obtain ⟨key, _, rfl⟩ := List.mem_map.mp among
    exact filter_ties_group (mem_group.mp inside).2

end Posted

namespace Listing

open Posted (keys group groups tops shown)

/-! ### Whatever the pages are -/

/-- **The read items of a key are its group**, whatever the pages were. -/
theorem versionsOf_group (cuts : List (List Posted)) (key : String) :
    versionsOf key ((cuts.flatMap (Sorting.kindLast Posted.marker)).map Posted.listed) =
      (group cuts.flatten key).map Posted.entry := by
  have read (items : List Posted) : (items.map Posted.listed).mergeSort inOrder =
      (items.mergeSort Posted.before).map Posted.listed :=
    (List.map_mergeSort (f := Posted.listed) (r := Posted.before) (s := inOrder) fun a _ b _ => rfl).symm
  have levels : ((cuts.flatMap (Sorting.kindLast Posted.marker)).filter (·.key == key)).mergeSort
      Posted.before = group cuts.flatten key := by
    apply Sorting.mergeSort_congr Posted.before_trans Posted.before_total
    intro a
    rw [Sorting.level, Sorting.level, List.filter_filter, List.filter_filter]
    have one (b : Posted) (chosen : ((Posted.before a b && Posted.before b a) && b.key == key) = true) :
        b.marker = a.marker := by
      simp only [Bool.and_eq_true, Posted.before_iff, Posted.Precedes] at chosen
      grind
    exact Sorting.filter_flatMap_kindLast one cuts
  rw [versionsOf, List.filter_map]
  show ((((cuts.flatMap (Sorting.kindLast Posted.marker)).filter (·.key == key)).map
    Posted.listed).mergeSort inOrder).map _ = _
  rw [read, levels, List.map_map]
  rfl

/-- The read keys that are asked for are the keys of the items that are asked for. -/
theorem namesOf_keys (cuts : List (List Posted)) (asked : String → Bool) :
    (namesOf ((cuts.flatMap (Sorting.kindLast Posted.marker)).map Posted.listed)).filter asked =
      keys (cuts.flatten.filter fun posted => asked posted.key) := by
  symm
  apply Sorting.mergeSort_eraseDups
  · exact (Sorting.ascending_mergeSort_eraseDups _).filter asked
  · intro key
    rw [List.mem_filter, namesOf, List.mem_mergeSort, List.mem_eraseDups, List.map_map]
    simp only [List.mem_map, List.mem_flatMap, Sorting.mem_kindLast, List.mem_filter, List.mem_flatten]
    constructor
    · rintro ⟨posted, ⟨placed, chosen⟩, rfl⟩
      exact ⟨⟨posted, placed, rfl⟩, chosen⟩
    · rintro ⟨⟨posted, placed, rfl⟩, chosen⟩
      exact ⟨posted, ⟨placed, chosen⟩, rfl⟩

/-- A listing of a key gives its group, or the first of it unless that is a marker. -/
theorem flatMap_tops (groups : List (List Posted)) :
    (groups.flatMap fun group =>
      ((group.map Posted.entry).head?.filter fun newest => !newest.isHidden).toList) =
        (tops groups).map Posted.entry := by
  induction groups with
  | nil => rfl
  | cons group rest ih =>
    rw [List.flatMap_cons, ih]
    cases group with
    | nil => rfl
    | cons top others =>
      cases marker : top.marker <;> simp [tops, Option.filter, marker]

/-- **A listing shows the groups of what was posted**, whatever the pages were. -/
theorem arrange_groups (cuts : List (List Posted)) (stem : String) (exact withHidden : Bool) :
    arrange stem exact withHidden ((cuts.flatMap (Sorting.kindLast Posted.marker)).map Posted.listed) =
      shown withHidden (groups (cuts.flatten.filter fun posted => !exact || posted.key == stem)) := by
  rw [arrange, namesOf_keys cuts fun key => !exact || key == stem, groups]
  generalize chosen : cuts.flatten.filter (fun posted => !exact || posted.key == stem) = items
  have each : ∀ key ∈ keys items, group cuts.flatten key = group items key := by
    intro key held
    obtain ⟨posted, inside, rfl⟩ := Posted.mem_keys.mp held
    rw [← chosen] at inside ⊢
    rw [group, group, List.filter_filter]
    refine congrArg (List.mergeSort · Posted.before) (List.filter_congr fun other _ => ?_)
    have asked := (List.mem_filter.mp inside).2
    by_cases same : other.key = posted.key
    · rw [same, asked, Bool.and_true]
    · rw [beq_eq_false_iff_ne.mpr same, Bool.false_and]
  have listings : ((keys items).flatMap fun key =>
      let versions := versionsOf key
        ((cuts.flatMap (Sorting.kindLast Posted.marker)).map Posted.listed)
      if withHidden then versions
      else (versions.head?.filter fun newest => !newest.isHidden).toList) =
        (groups items).flatMap fun group =>
          if withHidden then group.map Posted.entry
          else ((group.map Posted.entry).head?.filter fun newest => !newest.isHidden).toList := by
    simp only [versionsOf_group]
    rw [groups, List.flatMap_map, List.flatMap_def, List.flatMap_def]
    refine congrArg List.flatten (List.map_congr_left fun key held => ?_)
    rw [each key held]
  rw [listings, shown]
  cases withHidden with
  | true => exact List.map_flatten.symm
  | false => exact flatMap_tops _

end Listing

/-! ### The remote that a bucket is -/

/-- **A listing does not depend on pagination and loses nothing.** For every worker of the pool, once a bucket
is chosen, it shows the groups of the posted items, or of those under the one name that is asked for; and the
groups are there before it is known how the items are cut into pages. Times count as doubles, which keeps
their order, and keeps microseconds apart where these are fine enough. -/
theorem Connection.list_of_pages {connection : Connection} {worker : Int} {bucket : String}
    (inside : 0 ≤ worker ∧ worker < connection.pool.size) (chosen : connection.bucket = some bucket)
    (stem : String) (exact : Bool) (items : List Posted) :
    ∃ client groups, connection.pool.client worker = .ok client ∧
      Posted.Grouped (items.filter fun posted => !exact || posted.key == stem) groups ∧
      (∀ (withHidden : Bool) (cuts : List (List Posted)) {ω : Type} (h : Handler interface ω)
        (session : Session) (world : ω), cuts.flatten = items →
        (h (.listVersions client bucket stem) session world).1 = .ok (cuts.map Posted.page) →
        ((connection.list worker stem exact withHidden).run h session world).1 =
          .ok (Posted.shown withHidden groups)) ∧
      ∀ a ∈ items, ∀ b ∈ items, (a.modified ≤ b.modified → a.instant ≤ b.instant) ∧
        (Listing.Fine a.modified → Listing.Fine b.modified → a.modified < b.modified →
          a.instant < b.instant) := by
  refine ⟨connection.pool.clients.getD worker.toNat 0, Posted.groups _, if_pos inside,
    Posted.grouped_groups _, ?_, ?_⟩
  · intro withHidden cuts ω h session world whole answered
    have entries : Listing.entries stem exact withHidden (cuts.map Posted.page) =
        .ok (Posted.shown withHidden
          (Posted.groups (items.filter fun posted => !exact || posted.key == stem))) := by
      rw [Listing.entries, Listing.ofPages_posted, ← whole, ← Listing.arrange_groups]
      rfl
    generalize listed : h (.listVersions _ bucket stem) session world = answer at answered
    obtain ⟨_, session, world⟩ := answer
    cases answered
    rw [Connection.list, Program.run_bind, Program.run_ofExcept, Provider.target_served chosen inside]
    refine (congrArg Prod.fst (Provider.run_answered listed _)).trans ?_
    rw [Program.run_bind, Program.run_ofExcept]
    refine (congrArg Prod.fst (Program.run_bind _ _ _ _ _)).trans ?_
    rw [Program.run_ofExcept, entries]
    rfl
  · intro a _ b _
    exact ⟨Listing.instantOf_mono, Listing.instantOf_lt⟩

/-- A version, the marker that hides it since the same second, and an older version of which nothing more is
told: the pages of two cuts differ, and their listings are the same. -/
theorem Connection.list_of_pages_of_tie :
    let version : Posted := { marker := false, key := "a", id := "v1", modified := 7000000, size := some 3 }
    let marker : Posted := { marker := true, key := "a", id := "v2", modified := 7000000 }
    let older : Posted := { marker := false, key := "a", id := "v0", modified := 1000000 }
    let connection : Connection := ⟨⟨1, [0]⟩, some "bucket"⟩
    let serving (cuts : List (List Posted)) : Handler interface Unit := fun request session world =>
      match request with
      | .listVersions _ _ _ => (.ok (cuts.map Posted.page), session, world)
      | _ => (.error .noBucket, session, world)
    let listed (withHidden : Bool) (cuts : List (List Posted)) : Except Fault (List Entry) :=
      ((connection.list 0 "" false withHidden).run (serving cuts) {} ()).1
    let cuts := [[version], [marker, older]]
    let cuts' := [[version, marker], [], [older]]
    cuts.map Posted.page ≠ cuts'.map Posted.page ∧ marker.Precedes version ∧
      (∀ withHidden, listed withHidden cuts = listed withHidden cuts') ∧
      ∃ groups, Posted.Grouped [version, marker, older] groups ∧
        listed true cuts = .ok (groups.flatten.map Posted.entry) := by
  intro version marker older connection serving listed cuts cuts'
  obtain ⟨client, groups, -, grouped, shows, -⟩ :=
    @list_of_pages connection 0 _ (by decide) rfl "" false [version, marker, older]
  have first (withHidden : Bool) := shows withHidden cuts (serving cuts) {} () rfl rfl
  have second (withHidden : Bool) := shows withHidden cuts' (serving cuts') {} () rfl rfl
  refine ⟨by decide +kernel, .inr ⟨rfl, .inr ⟨rfl, rfl, rfl⟩⟩, ?_, groups, grouped, first true⟩
  intro withHidden
  exact (first withHidden).trans (second withHidden).symm

end FossilVault.Bucket
