/-
**Catalogs.** A catalog keeps the history of every stored name: a non-empty list of versions, the newest
first. The names stand in ascending order of their characters, each once, so two catalogs that give the
same histories are the same catalog.

* `history_replace` — replacing one history leaves all others as they are;
* `history_push`, `history_keep` — what adding and removing versions does to a history;
* `ext_history` — a catalog is determined by its histories;
* `mem_shelves_iff` — the names on the shelves are those with a history.
-/

namespace FossilVault

/-- The histories of the stored names, in ascending order of the names. -/
structure Catalog (α : Type) where
  shelves : List (String × List α)
  ascending : shelves.Pairwise fun a b => a.1 < b.1
  inhabited : ∀ shelf ∈ shelves, shelf.2 ≠ []

namespace Catalog

variable {α : Type}

/-- The catalog without names. -/
def empty : Catalog α := ⟨[], .nil, by simp⟩

instance : Inhabited (Catalog α) := ⟨empty⟩

/-- The history found first for a name in a list of shelves. -/
def lookup (name : String) : List (String × List α) → List α
  | [] => []
  | shelf :: rest => if shelf.1 = name then shelf.2 else lookup name rest

/-- Puts a history at the place of its name in ascending shelves; an empty one leaves no shelf. -/
def place (name : String) (history : List α) : List (String × List α) → List (String × List α)
  | [] => if history.isEmpty then [] else [(name, history)]
  | shelf :: rest =>
    if name < shelf.1 then
      if history.isEmpty then shelf :: rest else (name, history) :: shelf :: rest
    else if shelf.1 = name then
      if history.isEmpty then rest else (name, history) :: rest
    else shelf :: place name history rest

/-- The versions of a name, newest first; empty for a name that is not stored. -/
def history (catalog : Catalog α) (name : String) : List α :=
  lookup name catalog.shelves

/-! ### Shelves in order -/

theorem mem_place {name : String} {history : List α} {shelves : List (String × List α)}
    {shelf : String × List α} (placed : shelf ∈ place name history shelves) :
    (shelf = (name, history) ∧ history ≠ []) ∨ shelf ∈ shelves := by
  induction shelves with
  | nil =>
    unfold place at placed
    split at placed
    · simp at placed
    · rename_i full
      exact .inl ⟨by simpa using placed, by simpa using full⟩
  | cons first rest ih =>
    unfold place at placed
    split at placed
    · split at placed
      · exact .inr placed
      · rename_i full
        rcases List.mem_cons.mp placed with same | later
        · exact .inl ⟨same, by simpa using full⟩
        · exact .inr later
    · split at placed
      · split at placed
        · exact .inr (.tail _ placed)
        · rename_i full
          rcases List.mem_cons.mp placed with same | later
          · exact .inl ⟨same, by simpa using full⟩
          · exact .inr (.tail _ later)
      · rcases List.mem_cons.mp placed with same | later
        · exact .inr (same ▸ .head _)
        · exact (ih later).imp id (.tail _)

theorem pairwise_place {name : String} {history : List α} {shelves : List (String × List α)}
    (ascending : shelves.Pairwise fun a b => a.1 < b.1) :
    (place name history shelves).Pairwise fun a b => a.1 < b.1 := by
  induction shelves with
  | nil =>
    unfold place
    split <;> simp
  | cons first rest ih =>
    have above := List.pairwise_cons.mp ascending
    unfold place
    split
    · rename_i before
      split
      · exact ascending
      · refine List.pairwise_cons.mpr ⟨fun shelf among => ?_, ascending⟩
        rcases List.mem_cons.mp among with same | later
        · exact same ▸ before
        · exact String.lt_trans before (above.1 shelf later)
    · rename_i notBefore
      split
      · rename_i same
        split
        · exact above.2
        · exact List.pairwise_cons.mpr ⟨fun shelf among => same ▸ above.1 shelf among, above.2⟩
      · rename_i different
        refine List.pairwise_cons.mpr ⟨fun shelf among => ?_, ih above.2⟩
        rcases mem_place among with ⟨same, _⟩ | later
        · subst same
          refine Decidable.by_contra fun notAfter => different ?_
          exact String.le_antisymm notBefore notAfter
        · exact above.1 shelf later

theorem lookup_eq_nil {name : String} {shelves : List (String × List α)}
    (above : ∀ shelf ∈ shelves, name < shelf.1) : lookup name shelves = [] := by
  induction shelves with
  | nil => rfl
  | cons first rest ih =>
    have different : first.1 ≠ name := fun same =>
      String.lt_irrefl name (same ▸ above first (.head _))
    simp only [lookup, if_neg different]
    exact ih fun shelf among => above shelf (.tail _ among)

theorem lookup_place {name : String} {history : List α} {shelves : List (String × List α)}
    (ascending : shelves.Pairwise fun a b => a.1 < b.1) (other : String) :
    lookup other (place name history shelves) = if other = name then history else lookup other shelves := by
  induction shelves with
  | nil =>
    unfold place
    split
    · rename_i void
      have void : history = [] := by simpa using void
      by_cases same : other = name <;> simp [lookup, same, void]
    · by_cases same : other = name
      · simp [lookup, same]
      · simp [lookup, same, Ne.symm same]
  | cons first rest ih =>
    have above := List.pairwise_cons.mp ascending
    unfold place
    split
    · rename_i before
      have missing : lookup name (first :: rest) = [] := lookup_eq_nil fun shelf among => by
        rcases List.mem_cons.mp among with same | later
        · exact same ▸ before
        · exact String.lt_trans before (above.1 shelf later)
      split
      · rename_i void
        have void : history = [] := by simpa using void
        by_cases same : other = name
        · subst same
          rw [if_pos rfl, missing, void]
        · rw [if_neg same]
      · by_cases same : other = name
        · simp [lookup, same]
        · simp [lookup, same, Ne.symm same]
    · split
      · rename_i found
        have missing : lookup name rest = [] := lookup_eq_nil fun shelf among => found ▸ above.1 shelf among
        split
        · rename_i void
          have void : history = [] := by simpa using void
          by_cases same : other = name
          · subst same
            rw [if_pos rfl, missing, void]
          · have different : first.1 ≠ other := fun equal => same (equal.symm.trans found)
            simp [lookup, same, different]
        · by_cases same : other = name
          · simp [lookup, same]
          · have different : first.1 ≠ other := fun equal => same (equal.symm.trans found)
            simp [lookup, same, different, Ne.symm same]
      · rename_i different
        by_cases at_first : first.1 = other
        · have other_ne : other ≠ name := fun equal => different (at_first.trans equal)
          simp [lookup, at_first, other_ne]
        · simp only [lookup, if_neg at_first]
          exact ih above.2

/-! ### Operations -/

/-- Gives a name this history; the empty history removes the name. -/
def replace (name : String) (history : List α) (catalog : Catalog α) : Catalog α where
  shelves := place name history catalog.shelves
  ascending := pairwise_place catalog.ascending
  inhabited shelf among := by
    rcases mem_place among with ⟨same, full⟩ | before
    · exact same ▸ full
    · exact catalog.inhabited shelf before

/-- Puts a version on top of the history of a name. -/
def push (name : String) (version : α) (catalog : Catalog α) : Catalog α :=
  catalog.replace name (version :: catalog.history name)

/-- Keeps the versions of a name that satisfy `keeps`. -/
def keep (name : String) (keeps : α → Bool) (catalog : Catalog α) : Catalog α :=
  catalog.replace name ((catalog.history name).filter keeps)

@[simp] theorem history_empty (name : String) : (empty : Catalog α).history name = [] := rfl

theorem history_replace (catalog : Catalog α) (name : String) (history : List α) (other : String) :
    (catalog.replace name history).history other =
      if other = name then history else catalog.history other :=
  lookup_place catalog.ascending other

theorem history_push (catalog : Catalog α) (name : String) (version : α) (other : String) :
    (catalog.push name version).history other =
      if other = name then version :: catalog.history name else catalog.history other :=
  history_replace catalog name _ other

theorem history_keep (catalog : Catalog α) (name : String) (keeps : α → Bool) (other : String) :
    (catalog.keep name keeps).history other =
      if other = name then (catalog.history name).filter keeps else catalog.history other :=
  history_replace catalog name _ other

/-! ### A catalog is its histories -/

theorem lookup_of_mem {shelves : List (String × List α)}
    (ascending : shelves.Pairwise fun a b => a.1 < b.1) {shelf : String × List α}
    (among : shelf ∈ shelves) : lookup shelf.1 shelves = shelf.2 := by
  induction shelves with
  | nil => cases among
  | cons first rest ih =>
    have above := List.pairwise_cons.mp ascending
    rcases List.mem_cons.mp among with same | later
    · simp [lookup, same]
    · have different : first.1 ≠ shelf.1 := fun equal =>
        String.lt_irrefl shelf.1 (equal ▸ above.1 shelf later)
      simp only [lookup, if_neg different]
      exact ih above.2 later

theorem mem_of_lookup {name : String} {shelves : List (String × List α)}
    (found : lookup name shelves ≠ []) : (name, lookup name shelves) ∈ shelves := by
  induction shelves with
  | nil => exact absurd rfl found
  | cons first rest ih =>
    unfold lookup at found ⊢
    split
    · rename_i same
      exact same ▸ .head _
    · rename_i different
      rw [if_neg different] at found
      exact .tail _ (ih found)

theorem mem_shelves_iff {catalog : Catalog α} {shelf : String × List α} :
    shelf ∈ catalog.shelves ↔ shelf.2 = catalog.history shelf.1 ∧ shelf.2 ≠ [] := by
  constructor
  · exact fun among => ⟨(lookup_of_mem catalog.ascending among).symm, catalog.inhabited shelf among⟩
  · rintro ⟨same, full⟩
    have found : lookup shelf.1 catalog.shelves ≠ [] := fun void => full (same.trans void)
    have among := mem_of_lookup found
    rwa [show lookup shelf.1 catalog.shelves = shelf.2 from same.symm] at among

theorem eq_of_mem_iff {first second : List (String × List α)}
    (ascending : first.Pairwise fun a b => a.1 < b.1) (ascending' : second.Pairwise fun a b => a.1 < b.1)
    (same : ∀ shelf, shelf ∈ first ↔ shelf ∈ second) : first = second := by
  induction first generalizing second with
  | nil =>
    cases second with
    | nil => rfl
    | cons shelf rest => exact absurd ((same shelf).mpr (.head _)) (by simp)
  | cons low rest ih =>
    cases second with
    | nil => exact absurd ((same low).mp (.head _)) (by simp)
    | cons low' rest' =>
      have above := List.pairwise_cons.mp ascending
      have above' := List.pairwise_cons.mp ascending'
      have lowest : low = low' := by
        rcases List.mem_cons.mp ((same low).mp (.head _)) with equal | later
        · exact equal
        · rcases List.mem_cons.mp ((same low').mpr (.head _)) with equal | later'
          · exact equal.symm
          · exact absurd (above.1 low' later') (String.lt_asymm (above'.1 low later))
      subst lowest
      refine congrArg _ (ih above.2 above'.2 fun shelf => ⟨fun among => ?_, fun among => ?_⟩)
      · rcases List.mem_cons.mp ((same shelf).mp (.tail _ among)) with equal | later
        · exact absurd (equal ▸ above.1 shelf among) (String.lt_irrefl low.1)
        · exact later
      · rcases List.mem_cons.mp ((same shelf).mpr (.tail _ among)) with equal | later
        · exact absurd (equal ▸ above'.1 shelf among) (String.lt_irrefl low.1)
        · exact later

theorem ext_history {first second : Catalog α}
    (same : ∀ name, first.history name = second.history name) : first = second := by
  have equal : first.shelves = second.shelves :=
    eq_of_mem_iff first.ascending second.ascending fun shelf => by
      rw [mem_shelves_iff, mem_shelves_iff, same]
  cases first
  cases second
  cases equal
  rfl

end Catalog

end FossilVault
