import FossilVault.Proofs.Sorting
import FossilVault.Version
import Mathlib.Data.List.Destutter
/-
**Leaders.** The newest version of a name can be read off in two ways: by the first entry of every run of
equal names, for all names at once, or by the first entry among those of one name. The first way goes through
a list once and remembers nothing but one name, so it is right as far as the entries of each name stand
together.

* `leaders_eq` — the leaders are the entries with another name than the entry before them;
* `exists_leads_le` — every entry has the name of the last leader up to it;
* `leaders_eq_destutter` — the leaders are what `List.destutter` leaves of the entries;
* `nodup_leaders_iff` — each name leads once exactly if its entries stand together;
* `find?_leaders` — the first entry of a name leads, wherever the others stand;
* `leaders_newest` — both ways find the same newest versions.
-/

namespace FossilVault

variable {entries : List Entry}

/-- The entry at a place leads: no entry with its name stands right before it. -/
def Leads (entries : List Entry) (place : Fin entries.length) : Prop :=
  ∀ before : Fin entries.length, before.val + 1 = place.val → entries[before].name ≠ entries[place].name

instance : DecidablePred (Leads entries) := fun place =>
  inferInstanceAs (Decidable (∀ before : Fin entries.length, before.val + 1 = place.val →
    entries[before].name ≠ entries[place].name))

/-- The entries of each name stand together, with none of another name between them. -/
def Grouped (entries : List Entry) : Prop :=
  ∀ first middle last : Fin entries.length, first < middle → middle < last →
    entries[first].name = entries[last].name → entries[middle].name = entries[first].name

instance : Decidable (Grouped entries) :=
  inferInstanceAs (Decidable (∀ first middle last : Fin entries.length, first < middle → middle < last →
    entries[first].name = entries[last].name → entries[middle].name = entries[first].name))

/-! ### The places of the leaders -/

/-- The places of the leaders, in order. -/
def leadingPlaces (entries : List Entry) : List (Fin entries.length) :=
  (List.finRange entries.length).filter fun place => Leads entries place

theorem mem_leadingPlaces_iff {place : Fin entries.length} :
    place ∈ leadingPlaces entries ↔ Leads entries place := by
  simp [leadingPlaces]

theorem leads_zero (first : Entry) (rest : List Entry) : Leads (first :: rest) 0 := by
  intro before next
  cases next

theorem leads_succ_iff (first : Entry) (rest : List Entry) (place : Fin rest.length) :
    Leads (first :: rest) place.succ ↔ (first :: rest)[place.castSucc].name ≠ rest[place].name := by
  constructor
  · intro leads
    exact leads place.castSucc rfl
  · intro different before next
    obtain rfl : before = place.castSucc := Fin.ext (Nat.succ.inj next)
    exact different

theorem not_leads_iff {place : Fin entries.length} :
    ¬ Leads entries place ↔ ∃ before : Fin entries.length,
      before.val + 1 = place.val ∧ entries[before].name = entries[place].name := by
  simp [Leads]

/-- What stands at the places that pass, with the first place apart. -/
theorem map_get_filter_cons {α : Type} (first : α) (rest : List α)
    (passes : Fin (first :: rest).length → Bool) :
    ((List.finRange (first :: rest).length).filter passes).map (first :: rest).get =
      (if passes 0 then [first] else []) ++
        ((List.finRange rest.length).filter fun place => passes place.succ).map rest.get := by
  have places : List.finRange (first :: rest).length = 0 :: (List.finRange rest.length).map Fin.succ :=
    List.finRange_succ
  rw [places, List.filter_cons, List.filter_map]
  cases passes 0 <;> simp [Function.comp_def]

/-- What comes after an entry leads where it has another name than the entry before it. -/
theorem leadersAfter_eq (first : Entry) (rest : List Entry) :
    leadersAfter first.name rest =
      ((List.finRange rest.length).filter fun place => Leads (first :: rest) place.succ).map rest.get := by
  induction rest generalizing first with
  | nil => rfl
  | cons second others ih =>
    -- From the second place on it does not matter which entry the list starts with.
    have later : (fun place : Fin others.length => decide (Leads (second :: others) place.succ)) =
        fun place => decide (Leads (first :: second :: others) place.succ.succ) := by
      funext place
      exact decide_eq_decide.mpr
        ((leads_succ_iff second others place).trans (leads_succ_iff first (second :: others) place.succ).symm)
    have leads : Leads (first :: second :: others) (Fin.succ 0) ↔ first.name ≠ second.name :=
      leads_succ_iff first (second :: others) 0
    rw [map_get_filter_cons, ← later, ← ih second, leadersAfter]
    by_cases same : second.name = first.name
    · have silent : ¬ Leads (first :: second :: others) (Fin.succ 0) := fun differs =>
        leads.mp differs same.symm
      rw [if_pos same, if_neg (mt of_decide_eq_true silent), same, List.nil_append]
    · rw [if_neg same, if_pos (decide_eq_true (leads.mpr (Ne.symm same))), List.singleton_append]

/-- **The leaders are exactly the entries with another name than the entry before them**, in order. -/
theorem leaders_eq (entries : List Entry) : leaders entries = (leadingPlaces entries).map entries.get := by
  cases entries with
  | nil => rfl
  | cons first rest =>
    rw [leadingPlaces, map_get_filter_cons, if_pos (by simpa using leads_zero first rest), ← leadersAfter_eq]
    rfl

/-! ### The last leader up to a place -/

/-- From a place on the name stays the same as long as no entry leads. -/
theorem name_eq_of_quiet {start place : Fin entries.length} (below : start ≤ place)
    (quiet : ∀ between, start < between → between ≤ place → ¬ Leads entries between) :
    entries[start].name = entries[place].name := by
  obtain ⟨place, inside⟩ := place
  induction place with
  | zero =>
    obtain rfl : start = ⟨0, inside⟩ := Fin.ext (Nat.le_zero.mp below)
    rfl
  | succ before ih =>
    rcases Nat.lt_or_eq_of_le below with earlier | equal
    · have steady : entries[start].name = entries[before].name :=
        ih (Nat.lt_of_succ_lt inside) (Nat.le_of_lt_succ earlier) fun between above within =>
          quiet between above (Nat.le_succ_of_le within)
      have silent := quiet ⟨before + 1, inside⟩ earlier (Fin.le_refl _)
      obtain ⟨previous, next, same⟩ := not_leads_iff.mp silent
      obtain rfl : previous = ⟨before, Nat.lt_of_succ_lt inside⟩ := Fin.ext (Nat.succ.inj next)
      exact steady.trans same
    · obtain rfl : start = ⟨before + 1, inside⟩ := Fin.ext equal
      rfl

theorem exists_last_leader (place : Fin entries.length) :
    ∃ leader ≤ place, Leads entries leader ∧
      ∀ between, leader < between → between ≤ place → ¬ Leads entries between := by
  have itself {place : Fin entries.length} (leads : Leads entries place) :
      ∃ leader ≤ place, Leads entries leader ∧
        ∀ between, leader < between → between ≤ place → ¬ Leads entries between :=
    ⟨place, Fin.le_refl _, leads, fun _ above below => absurd below (Fin.not_le.mpr above)⟩
  obtain ⟨place, inside⟩ := place
  induction place with
  | zero => exact itself fun before next => nomatch next
  | succ before ih =>
    by_cases leads : Leads entries ⟨before + 1, inside⟩
    · exact itself leads
    · obtain ⟨leader, below, first, last⟩ := ih (Nat.lt_of_succ_lt inside)
      refine ⟨leader, Nat.le_succ_of_le below, first, ?_⟩
      intro between above within
      rcases Nat.lt_or_eq_of_le within with earlier | equal
      · exact last between above (Nat.le_of_lt_succ earlier)
      · obtain rfl : between = ⟨before + 1, inside⟩ := Fin.ext equal
        exact leads

/-- **Every entry has the name of the last leader up to it.** -/
theorem exists_leads_le (place : Fin entries.length) :
    ∃ leader ≤ place, Leads entries leader ∧
      (∀ between, leader < between → between ≤ place → ¬ Leads entries between) ∧
      entries[leader].name = entries[place].name := by
  obtain ⟨leader, below, leads, last⟩ := exists_last_leader place
  exact ⟨leader, below, leads, last, name_eq_of_quiet below last⟩

/-! ### What is left of a list -/

theorem cons_leadersAfter (first : Entry) (rest : List Entry) :
    first :: leadersAfter first.name rest = rest.destutter' (fun a b => a.name ≠ b.name) first := by
  induction rest generalizing first with
  | nil => rfl
  | cons second others ih =>
    rw [leadersAfter, List.destutter'_cons]
    by_cases same : second.name = first.name
    · rw [if_pos same, if_neg (fun different => different same.symm), ih]
    · rw [if_neg same, if_pos (fun equal => same equal.symm), ih]

/-- The leaders are what is left when every entry goes that has the name of the last one left before it. -/
theorem leaders_eq_destutter (entries : List Entry) :
    leaders entries = entries.destutter fun a b => a.name ≠ b.name := by
  cases entries with
  | nil => rfl
  | cons first rest => exact cons_leadersAfter first rest

/-- A name leads exactly if it occurs. -/
theorem mem_names_leaders_iff {name : String} :
    name ∈ (leaders entries).map (·.name) ↔ name ∈ entries.map (·.name) := by
  rw [List.mem_map, List.mem_map]
  constructor
  · rintro ⟨entry, leads, named⟩
    exact ⟨entry, mem_of_mem_leaders leads, named⟩
  · rintro ⟨entry, among, rfl⟩
    obtain ⟨place, rfl⟩ := List.mem_iff_get.mp among
    obtain ⟨leader, _, leads, _, named⟩ := exists_leads_le place
    rw [leaders_eq]
    exact ⟨_, List.mem_map_of_mem (mem_leadingPlaces_iff.mpr leads), named⟩

/-- Where the entries of each name stand together, none of them leads after another one. -/
theorem Grouped.not_leads (grouped : Grouped entries) {first place : Fin entries.length}
    (before : first < place) (same : entries[first].name = entries[place].name) : ¬ Leads entries place := by
  obtain ⟨place, inside⟩ := place
  cases place with
  | zero => exact absurd before (Nat.not_lt_zero _)
  | succ previous =>
    have within : previous < entries.length := Nat.lt_of_succ_lt inside
    rw [not_leads_iff]
    refine ⟨⟨previous, within⟩, rfl, ?_⟩
    rcases Nat.lt_or_eq_of_le (Nat.le_of_lt_succ before) with earlier | equal
    · have between : entries[previous].name = entries[first].name :=
        grouped first ⟨previous, within⟩ ⟨previous + 1, inside⟩ earlier (Nat.lt_succ_self previous) same
      exact between.trans same
    · obtain rfl : first = ⟨previous, within⟩ := Fin.ext equal
      exact same

/-- **Each name leads once exactly if its entries stand together.** -/
theorem nodup_leaders_iff : ((leaders entries).map (·.name)).Nodup ↔ Grouped entries := by
  have places : (leadingPlaces entries).Nodup := (List.nodup_finRange _).filter _
  rw [leaders_eq, List.map_map, List.nodup_map_iff_inj_on places]
  simp only [mem_leadingPlaces_iff]
  constructor
  · -- The outer two entries have one leader, and the name stays the same from there to the last.
    intro unique first middle last before behind same
    obtain ⟨leader, below, leads, _, named⟩ := exists_leads_le first
    obtain ⟨leader', _, leads', quiet, named'⟩ := exists_leads_le last
    obtain rfl : leader = leader' := unique leader leads leader' leads' ((named.trans same).trans named'.symm)
    have steady : entries[leader].name = entries[middle].name :=
      name_eq_of_quiet (Fin.le_trans below (Fin.le_of_lt before)) fun between above within =>
        quiet between above (Fin.le_trans within (Fin.le_of_lt behind))
    exact steady.symm.trans named
  · intro grouped place leads place' leads' same
    rcases Nat.lt_trichotomy place.val place'.val with before | equal | behind
    · exact absurd leads' (grouped.not_leads before same)
    · exact Fin.ext equal
    · exact absurd leads (grouped.not_leads behind same.symm)

/-! ### Newest versions -/

theorem stateOf_named (name : String) (entries : List Entry) :
    stateOf name (entries.filter (·.name == name)) = (entries.find? (·.name == name)).map (·.state) := by
  rw [← List.head?_filter]
  cases named : entries.filter (·.name == name) with
  | nil => rfl
  | cons entry rest =>
    have among : entry ∈ entries.filter (·.name == name) := named ▸ .head _
    have same : entry.name = name := by simpa using (List.mem_filter.mp among).2
    rw [stateOf, if_pos same]
    rfl

/-- A name has no state exactly if it does not occur. -/
theorem stateOf_named_eq_none_iff {name : String} :
    stateOf name (entries.filter (·.name == name)) = none ↔ name ∉ entries.map (·.name) := by
  rw [stateOf_named, Option.map_eq_none_iff, List.find?_eq_none]
  simp

theorem find?_leadersAfter {last name : String} (different : last ≠ name) (entries : List Entry) :
    (leadersAfter last entries).find? (·.name == name) = entries.find? (·.name == name) := by
  induction entries generalizing last with
  | nil => rfl
  | cons first rest ih =>
    rw [leadersAfter, List.find?_cons]
    by_cases same : first.name = last
    · have other : (first.name == name) = false := by simpa [same] using different
      rw [if_pos same, ih different, other]
    · rw [if_neg same, List.find?_cons]
      cases named : first.name == name with
      | true => rfl
      | false => exact ih (by simpa using named)

/-- **The first entry of a name leads**, wherever the others stand. -/
theorem find?_leaders (name : String) (entries : List Entry) :
    (leaders entries).find? (·.name == name) = entries.find? (·.name == name) := by
  cases entries with
  | nil => rfl
  | cons first rest =>
    rw [leaders_cons, List.find?_cons, List.find?_cons]
    cases named : first.name == name with
    | true => rfl
    | false => exact find?_leadersAfter (by simpa using named) rest

/-- Where each name leads once, its leader is its newest version. -/
theorem stateOf_leader (once : ((leaders entries).map (·.name)).Nodup) {leader : Entry}
    (leads : leader ∈ leaders entries) :
    stateOf leader.name (entries.filter (·.name == leader.name)) = some leader.state := by
  have found : (leaders entries).find? (·.name == leader.name) = some leader :=
    Sorting.find?_of_nodup once leads
  rw [stateOf_named, ← find?_leaders, found]
  rfl

/-- **The leaders are the newest versions, as far as the entries of each name stand together.** In any list they
are exactly the entries with another name than the one before them, in order: no two neighbours among them share
a name, they are their own leaders, every entry has the name of the last leader up to it, and a name leads exactly
if it occurs. Each name leads once exactly if the entries of each name stand together. Its leader then has the
state that the entries of this name alone tell of it; they tell none exactly if the name does not occur. -/
theorem leaders_newest (entries : List Entry) :
    leaders entries = ((List.finRange entries.length).filter fun place => Leads entries place).map entries.get ∧
    (leaders entries).IsChain (fun entry next => entry.name ≠ next.name) ∧
    leaders (leaders entries) = leaders entries ∧
    (∀ place, ∃ leader ≤ place, Leads entries leader ∧
      (∀ between, leader < between → between ≤ place → ¬ Leads entries between) ∧
      entries[leader].name = entries[place].name) ∧
    (∀ name, name ∈ (leaders entries).map (·.name) ↔ name ∈ entries.map (·.name)) ∧
    (((leaders entries).map (·.name)).Nodup ↔ Grouped entries) ∧
    (Grouped entries → ∀ leader ∈ leaders entries,
      stateOf leader.name (entries.filter (·.name == leader.name)) = some leader.state) ∧
    ∀ name, stateOf name (entries.filter (·.name == name)) = none ↔ name ∉ entries.map (·.name) := by
  refine ⟨leaders_eq entries, ?_, ?_, exists_leads_le, fun _ => mem_names_leaders_iff, nodup_leaders_iff,
    ?_, fun _ => stateOf_named_eq_none_iff⟩
  · rw [leaders_eq_destutter]
    exact List.isChain_destutter _ entries
  · rw [leaders_eq_destutter, leaders_eq_destutter]
    exact List.destutter_idem entries _
  · intro grouped leader leads
    exact stateOf_leader (nodup_leaders_iff.mpr grouped) leads

/-- A hidden name with an older content, and a longer name behind it. -/
theorem leaders_newest_of_hidden :
    let entries : List Entry :=
      [⟨"a", "3", .hidden, 0⟩, ⟨"a", "2", .active, 1⟩, ⟨"ab", "1", .active, 1⟩]
    Grouped entries ∧ ((leaders entries).map (·.name)).Nodup ∧
      stateOf "a" (entries.filter (·.name == "a")) = some (.hidden "3" 0) ∧
      stateOf "b" (entries.filter (·.name == "b")) = none := by
  intro entries
  have grouped : Grouped entries := by decide
  obtain ⟨_, _, _, _, _, once, newest, missing⟩ := leaders_newest entries
  exact ⟨grouped, once.mpr grouped, newest grouped ⟨"a", "3", .hidden, 0⟩ (by decide),
    (missing "b").mpr (by decide)⟩

end FossilVault
