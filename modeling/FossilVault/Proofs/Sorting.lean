/-
**Stable sorting.** Sorting a list by a total preorder puts the levels of the preorder one after the
other and keeps the order within each level. So two lists that differ only in how their levels are
interleaved are sorted alike.

* `Sorting.level_mergeSort` — sorting keeps every level as it was;
* `Sorting.mergeSort_congr` — lists with the same levels are sorted alike;
* `Sorting.head_mergeSort` — what comes before all others is sorted first;
* `Sorting.takeWhile_of_pairwise` — the run at the start of a sorted list, without its order;
* `Sorting.mergeSort_eraseDups` — ascending names are recovered from any list of them;
* `Sorting.find?_of_nodup` — where keys are different, an element is found by its key;
* `Sorting.kindLast_eq_self` — a list whose kinds are apart already stays as it is;
* `Sorting.filter_flatMap_kindLast` — putting two kinds apart keeps the order within each.
-/

namespace FossilVault.Sorting

variable {α : Type} {le : α → α → Bool}

/-- The elements of a list that a preorder puts on a level with `a`. -/
def level (le : α → α → Bool) (a : α) (elements : List α) : List α :=
  elements.filter fun b => le a b && le b a

theorem mem_level {a b : α} {elements : List α} :
    b ∈ level le a elements ↔ b ∈ elements ∧ le a b = true ∧ le b a = true := by
  simp [level, List.mem_filter]

section Sorted

variable (trans : ∀ a b c, le a b = true → le b c = true → le a c = true)
  (total : ∀ a b, (le a b || le b a) = true)

include total

theorem refl_of_total (a : α) : le a a = true := by
  simpa using total a a

/-- Two sorted lists with the same levels are the same. -/
theorem eq_of_levels {first second : List α} (sorted : first.Pairwise fun a b => le a b = true)
    (sorted' : second.Pairwise fun a b => le a b = true)
    (levels : ∀ a, level le a first = level le a second) : first = second := by
  have self {a : α} {elements : List α} (among : a ∈ elements) : a ∈ level le a elements :=
    mem_level.mpr ⟨among, refl_of_total total a, refl_of_total total a⟩
  induction first generalizing second with
  | nil =>
    cases second with
    | nil => rfl
    | cons b rest => exact absurd (levels b ▸ self (.head rest)) List.not_mem_nil
  | cons a rest ih =>
    cases second with
    | nil => exact absurd (levels a ▸ self (.head rest)) List.not_mem_nil
    | cons b rest' =>
      have low : le b a = true := by
        have among := (mem_level.mp (levels a ▸ self (.head rest))).1
        rcases List.mem_cons.mp among with same | later
        · exact same ▸ refl_of_total total a
        · exact (List.pairwise_cons.mp sorted').1 a later
      have high : le a b = true := by
        have among := (mem_level.mp ((levels b).symm ▸ self (.head rest'))).1
        rcases List.mem_cons.mp among with same | later
        · exact same ▸ refl_of_total total b
        · exact (List.pairwise_cons.mp sorted).1 b later
      have heads := levels a
      rw [level, level, List.filter_cons_of_pos (by simp [refl_of_total total a]),
        List.filter_cons_of_pos (by simp [low, high])] at heads
      obtain ⟨rfl, _⟩ := List.cons.inj heads
      have same : rest = rest' := by
        apply ih (List.pairwise_cons.mp sorted).2 (List.pairwise_cons.mp sorted').2
        intro c
        have tails := levels c
        unfold level at tails ⊢
        rw [List.filter_cons, List.filter_cons] at tails
        split at tails
        · exact (List.cons.inj tails).2
        · exact tails
      rw [same]

include trans

/-- **Sorting keeps every level as it was.** -/
theorem level_mergeSort (a : α) (elements : List α) :
    level le a (elements.mergeSort le) = level le a elements := by
  have sorted : (level le a elements).Pairwise fun b c => le b c = true := by
    rw [List.pairwise_iff_forall_sublist]
    intro b c pair
    have left := mem_level.mp (pair.mem (.head _))
    have right := mem_level.mp (pair.mem (.tail _ (.head _)))
    exact trans _ _ _ left.2.2 right.2.1
  have inside : (level le a elements).Sublist (elements.mergeSort le) :=
    List.sublist_mergeSort trans total sorted List.filter_sublist
  have fixed : level le a (level le a elements) = level le a elements := by
    simp [level, List.filter_filter]
  have kept : (level le a elements).Sublist (level le a (elements.mergeSort le)) := by
    have filtered := inside.filter fun b => le a b && le b a
    change (level le a (level le a elements)).Sublist _ at filtered
    rwa [fixed] at filtered
  -- A sublist of a level that is as long as the level is all of it.
  refine (kept.eq_of_length ?_).symm
  exact ((List.mergeSort_perm elements le).filter fun b => le a b && le b a).length_eq.symm

/-- **Lists with the same levels are sorted alike.** -/
theorem mergeSort_congr {first second : List α}
    (levels : ∀ a, level le a first = level le a second) :
    first.mergeSort le = second.mergeSort le := by
  have sorted := List.pairwise_mergeSort trans total first
  have sorted' := List.pairwise_mergeSort trans total second
  apply eq_of_levels total sorted sorted'
  intro a
  rw [level_mergeSort trans total, level_mergeSort trans total, levels]

/-- What no other element may come before is sorted first. -/
theorem head_mergeSort {top : α} {rest : List α} (first : ∀ b ∈ rest, le b top = false) :
    ((top :: rest).mergeSort le).head? = some top := by
  have perm := List.mergeSort_perm (top :: rest) le
  have sorted := List.pairwise_mergeSort trans total (top :: rest)
  cases ordered : (top :: rest).mergeSort le with
  | nil =>
    rw [ordered] at perm
    cases perm.symm.eq_nil
  | cons head others =>
    rw [ordered] at perm sorted
    rcases List.mem_cons.mp (perm.mem_iff.mpr (.head rest)) with same | later
    · rw [same]
      rfl
    · have before := (List.pairwise_cons.mp sorted).1 top later
      rcases List.mem_cons.mp (perm.mem_iff.mp (.head others)) with same | inside
      · rw [same]
        rfl
      · rw [first head inside] at before
        cases before

omit trans total in
/-- **The run at the start of a sorted list** holds the elements that come before all of the other
kind. -/
theorem takeWhile_of_pairwise {kind : α → Bool} {elements : List α}
    (sorted : elements.Pairwise fun a b => le a b = true)
    (apart : ∀ a b, kind a = true → kind b = false → le b a = true → le a b = false) :
    elements.takeWhile kind =
      elements.filter fun a => kind a && elements.all fun b => kind b || le a b := by
  induction elements with
  | nil => rfl
  | cons head rest ih =>
    obtain ⟨low, later⟩ := List.pairwise_cons.mp sorted
    cases sort : kind head with
    | true =>
      rw [List.takeWhile_cons_of_pos sort, ih later, List.filter_cons_of_pos]
      · refine congrArg (head :: ·) (List.filter_congr ?_)
        intro a _
        simp [sort]
      · simp only [sort, List.all_cons, Bool.true_or, Bool.true_and, List.all_eq_true,
          Bool.or_eq_true]
        intro b among
        exact .inr (low b among)
    | false =>
      rw [List.takeWhile_cons_of_neg (by simp [sort])]
      symm
      rw [List.filter_eq_nil_iff]
      intro a among passes
      simp only [List.all_cons, sort, Bool.false_or, Bool.and_eq_true] at passes
      rcases List.mem_cons.mp among with same | inside
      · rw [same, sort] at passes
        cases passes.1
      · have clash := apart a head passes.1 sort (low a inside)
        rw [passes.2.1] at clash
        cases clash

end Sorted

/-! ### Ascending names -/

theorem nodup_eraseDups [BEq α] [LawfulBEq α] (elements : List α) : elements.eraseDups.Nodup := by
  induction h : elements.length using Nat.strongRecOn generalizing elements with
  | ind length ih =>
    cases elements with
    | nil => exact .nil
    | cons first rest =>
      rw [List.eraseDups_cons]
      refine List.nodup_cons.mpr ⟨?_, ih _ ?_ _ rfl⟩
      · intro among
        have kept := (List.mem_filter.mp (List.mem_eraseDups.mp among)).2
        simp at kept
      · rw [← h, List.length_cons]
        exact Nat.lt_succ_of_le (List.length_filter_le _ _)

/-- Different names that are sorted ascend. -/
theorem ascending_mergeSort_eraseDups (names : List String) :
    (names.eraseDups.mergeSort fun a b => decide (a ≤ b)).Pairwise (· < ·) := by
  have sorted : (names.eraseDups.mergeSort fun a b => decide (a ≤ b)).Pairwise
      fun a b => decide (a ≤ b) = true :=
    List.pairwise_mergeSort
      (fun a b c => by simpa using fun first second => String.le_trans first second)
      (fun a b => by simpa using String.le_total a b) names.eraseDups
  have different : (names.eraseDups.mergeSort fun a b => decide (a ≤ b)).Nodup :=
    (List.mergeSort_perm _ _).nodup_iff.mpr (nodup_eraseDups names)
  refine (sorted.and different).imp ?_
  rintro a b ⟨below, apart⟩
  rw [← String.not_le]
  exact fun above => apart (String.le_antisymm (of_decide_eq_true below) above)

/-- Ascending names are different. -/
theorem nodup_of_ascending {names : List String} (strict : names.Pairwise (· < ·)) : names.Nodup := by
  refine List.Pairwise.imp ?_ strict
  intro low high below same
  rw [same] at below
  exact String.lt_irrefl high below

/-- There is one way for the same names to ascend. -/
theorem eq_of_ascending {first second : List String} (strict : first.Pairwise (· < ·))
    (strict' : second.Pairwise (· < ·)) (same : ∀ name, name ∈ first ↔ name ∈ second) :
    first = second := by
  have perm : first.Perm second := by
    rw [List.perm_ext_iff_of_nodup (nodup_of_ascending strict) (nodup_of_ascending strict')]
    exact same
  refine perm.eq_of_pairwise ?_ strict strict'
  intro a b _ _ below above
  exact absurd above (String.lt_asymm below)

/-- **Ascending names are recovered from any list of them.** -/
theorem mergeSort_eraseDups {names ascending : List String}
    (strict : ascending.Pairwise (· < ·)) (same : ∀ name, name ∈ names ↔ name ∈ ascending) :
    (names.eraseDups.mergeSort fun a b => decide (a ≤ b)) = ascending := by
  refine eq_of_ascending (ascending_mergeSort_eraseDups names) strict ?_
  intro name
  rw [List.mem_mergeSort, List.mem_eraseDups]
  exact same name

/-- Where keys are different, an element is found by its key. -/
theorem find?_of_nodup {κ : Type} [BEq κ] [LawfulBEq κ] {key : α → κ} {elements : List α} {a : α}
    (distinct : (elements.map key).Nodup) (among : a ∈ elements) :
    elements.find? (fun b => key b == key a) = some a := by
  induction elements with
  | nil => cases among
  | cons top rest ih =>
    obtain ⟨apart, distinct⟩ := List.nodup_cons.mp distinct
    rcases List.mem_cons.mp among with rfl | later
    · exact List.find?_cons_of_pos (beq_self_eq_true _)
    · have other : key top ≠ key a := fun same => apart (List.mem_map.mpr ⟨a, later, same.symm⟩)
      rw [List.find?_cons_of_neg (by simpa using other)]
      exact ih distinct later

/-! ### Interleaved kinds -/

/-- The elements of a kind behind all others. -/
def kindLast (kind : α → Bool) (elements : List α) : List α :=
  elements.filter (fun a => !kind a) ++ elements.filter kind

theorem mem_kindLast {kind : α → Bool} {elements : List α} {a : α} :
    a ∈ kindLast kind elements ↔ a ∈ elements := by
  simp only [kindLast, List.mem_append, List.mem_filter]
  cases kind a <;> simp

/-- A list whose elements of a kind are behind all others already. -/
theorem kindLast_eq_self {kind : α → Bool} {elements : List α}
    (last : elements.Pairwise fun a b => kind a = true → kind b = true) :
    kindLast kind elements = elements := by
  induction elements with
  | nil => rfl
  | cons first rest ih =>
    obtain ⟨behind, later⟩ := List.pairwise_cons.mp last
    cases sort : kind first with
    | true =>
      have all : rest.filter kind = rest := List.filter_eq_self.mpr fun a among => behind a among sort
      have none : rest.filter (fun a => !kind a) = [] := by
        rw [List.filter_eq_nil_iff]
        intro a among
        simp [behind a among sort]
      simp [kindLast, sort, all, none]
    | false =>
      have ih := ih later
      rw [kindLast] at ih ⊢
      simp [sort, ih]

/-- **Elements of one kind keep their order** when in each part of a list the kinds are put apart. -/
theorem filter_flatMap_kindLast {kind chosen : α → Bool} {sort : Bool}
    (one : ∀ a, chosen a = true → kind a = sort) (parts : List (List α)) :
    (parts.flatMap (kindLast kind)).filter chosen = parts.flatten.filter chosen := by
  have part (elements : List α) : (kindLast kind elements).filter chosen = elements.filter chosen := by
    rw [kindLast, List.filter_append, List.filter_filter, List.filter_filter]
    have whole (sort : α → Bool) (all : ∀ a, chosen a = true → sort a = true) :
        elements.filter (fun a => chosen a && sort a) = elements.filter chosen := by
      apply List.filter_congr
      intro a _
      cases pick : chosen a <;> simp [all a, pick]
    have none (sort : α → Bool) (no : ∀ a, chosen a = true → sort a = false) :
        elements.filter (fun a => chosen a && sort a) = [] := by
      rw [List.filter_eq_nil_iff]
      intro a _
      cases pick : chosen a <;> simp [no a, pick]
    cases sort with
    | true => rw [none _ fun a pick => by simp [one a pick], whole _ one, List.nil_append]
    | false => rw [whole _ fun a pick => by simp [one a pick], none _ one, List.append_nil]
  induction parts with
  | nil => rfl
  | cons elements rest ih =>
    rw [List.flatMap_cons, List.filter_append, part, ih, List.flatten_cons, List.filter_append]

end FossilVault.Sorting
