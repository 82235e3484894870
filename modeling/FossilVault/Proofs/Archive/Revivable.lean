import FossilVault.Proofs.Archive.Faltering
/-
**Fossils that can be revived.** A marker that lies right on a content hides that content and nothing
else, so taking the marker away brings it back. This is so of every marker for as long as a vault is
used, since a vault hides nothing but contents and deletes from a marker downwards, and since what is
deleted below a marker goes after the marker; it does not matter where an operation is cut off.

* `Anchored.on`, `Anchored.purgedFor` — a change keeps markers on contents, and so does a purge that is
  cut short;
* `Stacks.Revivable.turn`, `Stacks.Revivable.purgedFor` — an operation keeps every fossil revivable;
* `Archive.Lawful.revivable_step` — so it is when the operation is cut off at any call.
-/

namespace FossilVault

/-- Every marker of a stack lies right on a content. -/
def Anchored (stack : List (Option Bytes)) : Prop :=
  ∀ above below, stack = above ++ none :: below → ∃ content older, below = some content :: older

namespace Anchored

variable {front back stack : List (Option Bytes)}

theorem nil : Anchored [] := by
  intro above below same
  simp at same

/-- What lies below does not depend on what lies above. -/
theorem behind (anchored : Anchored (front ++ back)) : Anchored back := by
  rintro above below rfl
  exact anchored (front ++ above) below (List.append_assoc _ _ _).symm

theorem cons_content (anchored : Anchored stack) (content : Bytes) :
    Anchored (some content :: stack) := by
  intro above below same
  cases above with
  | nil => cases same
  | cons top above => exact anchored above below (List.cons.inj same).2

theorem cons_marker {content : Bytes} {older : List (Option Bytes)}
    (anchored : Anchored (some content :: older)) : Anchored (none :: some content :: older) := by
  intro above below same
  cases above with
  | nil => exact ⟨content, older, (List.cons.inj same).2.symm⟩
  | cons top above => exact anchored above below (List.cons.inj same).2

/-- Contents may be put on top. -/
theorem append_contents (contents : ∀ held ∈ front, held.isSome = true) (anchored : Anchored back) :
    Anchored (front ++ back) := by
  induction front with
  | nil => exact anchored
  | cons top rest ih =>
    obtain ⟨content, rfl⟩ := Option.isSome_iff_exists.mp (contents top (.head _))
    exact (ih fun held among => contents held (.tail _ among)).cons_content content

/-- A purge that is cut short takes the markers away before what they lie on. -/
theorem purgedFor (anchored : Anchored stack) (count : Nat) : Anchored (purgedFor count stack) := by
  refine append_contents (fun held among => List.all_eq_true.mp List.all_takeWhile held among) ?_
  -- what is left of the part below the first marker is the end of the whole stack
  have whole : stack = (stack.takeWhile Option.isSome ++ (stack.dropWhile Option.isSome).take count) ++
      (stack.dropWhile Option.isSome).drop count := by
    rw [List.append_assoc, List.take_append_drop, List.takeWhile_append_dropWhile]
  rw [whole] at anchored
  exact anchored.behind

/-- **A change keeps markers on contents.** -/
theorem on (anchored : Anchored stack) (change : Change) : Anchored (change.on id id stack) := by
  cases change with
  | push content => exact anchored.cons_content content
  | purge =>
    have contents : Anchored (stack.takeWhile Option.isSome ++ []) :=
      append_contents (fun held among => List.all_eq_true.mp List.all_takeWhile held among) nil
    rwa [List.append_nil] at contents
  | hide =>
    rcases stack with - | ⟨- | content, older⟩
    · exact nil
    · exact anchored
    · exact anchored.cons_marker
  | unhide =>
    rcases stack with - | ⟨- | content, older⟩
    · exact nil
    · exact behind (show Anchored ([none] ++ older) from anchored)
    · exact anchored
  | pop =>
    cases stack with
    | nil => exact nil
    | cons top older => exact behind (show Anchored ([top] ++ older) from anchored)

end Anchored

/-! ### Stacks -/

theorem Operation.bare_of_hide {operation : Operation} {name : String}
    (made : operation.change = some (name, .hide)) : Fossil.isFossil name = false := by
  cases operation with
  | move worker source target =>
    rw [change] at made
    split at made
    · cases made
    · split at made
      · rename_i there
        cases made
        exact there.2
      · cases made
  | delete worker path =>
    rw [change] at made
    simp only [Option.some.injEq, Prod.mk.injEq] at made
    split at made <;> cases made.2
  | upload | download | inspect | list | makeDirectory => cases made

/-- Every change but a hide leaves no markers other than those that were there. -/
theorem Change.marker_on {change : Change} {stack : List (Option Bytes)} (single : change ≠ .hide)
    (marker : none ∈ change.on id id stack) : none ∈ stack := by
  cases change with
  | push content => exact List.mem_of_ne_of_mem (by simp) marker
  | purge => exact (List.takeWhile_sublist _).mem marker
  | hide => exact absurd rfl single
  | unhide =>
    rcases stack with - | ⟨- | content, older⟩
    · exact marker
    · exact .tail _ marker
    · exact marker
  | pop =>
    rw [on_pop] at marker
    exact List.mem_of_mem_tail marker

namespace Stacks

/-- Every marker lies right on a content, and on none that is stored under a fossil's name. -/
structure Revivable (stacked : Stacks) : Prop where
  anchored (name : String) : Anchored (stacked.history name)
  bare (name : String) (marker : none ∈ stacked.history name) : Fossil.isFossil name = false

namespace Revivable

variable {stacked : Stacks}

theorem empty : Revivable Catalog.empty where
  anchored _ := Anchored.nil
  bare _ marker := nomatch marker

theorem replace (revivable : stacked.Revivable) {name : String} {stack : List (Option Bytes)}
    (anchored : Anchored stack) (bare : none ∈ stack → Fossil.isFossil name = false) :
    Revivable (stacked.replace name stack) where
  anchored other := by
    rw [Catalog.history_replace]
    by_cases same : other = name
    · rwa [if_pos same]
    · rw [if_neg same]
      exact revivable.anchored other
  bare other marker := by
    rw [Catalog.history_replace] at marker
    by_cases same : other = name
    · rw [if_pos same] at marker
      exact same ▸ bare marker
    · rw [if_neg same] at marker
      exact revivable.bare other marker

theorem turn (revivable : stacked.Revivable) {name : String} {change : Change}
    (bare : change = .hide → Fossil.isFossil name = false) :
    Revivable (stacked.turn id id name change) := by
  refine revivable.replace ((revivable.anchored name).on change) ?_
  intro marker
  by_cases hides : change = .hide
  · exact bare hides
  · exact revivable.bare name (Change.marker_on hides marker)

theorem purgedFor (revivable : stacked.Revivable) (name : String) (count : Nat) :
    Revivable (stacked.replace name (purgedFor count (stacked.history name))) := by
  refine revivable.replace ((revivable.anchored name).purgedFor count) ?_
  intro marker
  refine revivable.bare name ?_
  rcases List.mem_append.mp marker with above | below
  · exact (List.takeWhile_sublist _).mem above
  · exact (List.dropWhile_sublist _).mem (List.mem_of_mem_drop below)

end Revivable

end Stacks

/-! ### Archives -/

/-- **An operation keeps every fossil revivable**, wherever it is cut off. -/
theorem Archive.Lawful.revivable_step {α ω ω' : Type} {archive : Archive α ω} (lawful : archive.Lawful)
    {seen : ω' → ω} {h' : Handler Remote.interface ω'} (falters : archive.handler.Falters seen h')
    (straight : ∀ stack, archive.order stack = stack) (vault : Vault) {operation : Operation}
    (served : archive.serves operation.worker) (session : Session) {world : ω'}
    (sound : archive.sound (seen world)) (revivable : (archive.stacked (seen world)).Revivable) :
    let world' := seen (vault.step h' (session, world) operation).2.2
    archive.sound world' ∧ (archive.stacked world').Revivable := by
  obtain ⟨sound', count, reached⟩ := lawful.step_partly falters sound vault served session rfl
  refine ⟨sound', ?_⟩
  have wrote := lawful.wrote reached
  unfold Operation.writes at wrote
  cases made : operation.change with
  | none =>
    rw [made, List.take_nil] at wrote
    exact (show archive.stacked _ = archive.stacked _ from
      congrArg (Catalog.contents archive.version) wrote.idle) ▸ revivable
  | some turned =>
    obtain ⟨name, change⟩ := turned
    rw [made] at wrote
    have hidden : change = .hide → Fossil.isFossil name = false := by
      rintro rfl
      exact Operation.bare_of_hide made
    rcases wrote.partly (lawful.distinct sound name) fun _ => straight _ with same | made | cut
    · exact (show archive.stacked _ = archive.stacked _ from same) ▸ revivable
    · exact (show archive.stacked _ = _ from made) ▸ revivable.turn hidden
    · exact (show archive.stacked _ = _ from cut) ▸ revivable.purgedFor name count

end FossilVault
