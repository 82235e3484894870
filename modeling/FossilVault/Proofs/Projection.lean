import FossilVault.Fossil
/-
**Projected names.** The engine sees a stored name as what its newest version makes of it: a hidden one as its
fossil, any other as it stands. A path that is seen is read back as what it was made from, unless it was
made from an active name that ends like a fossil, for such a name is read as the fossil of a shorter one. It
is also the only way for two names to be seen alike.

* `Logical.parse_path_iff` — which meanings are read back from their paths;
* `Logical.path_eq_iff` — which meanings have the same path;
* `project_faithful` — both, for the names and states that the engine sees.
-/

namespace FossilVault.Fossil

theorem project_eq_path (name : String) (state : State) :
    project name state = Logical.path ⟨name, state.isHidden⟩ := rfl

theorem fossilOf_injective : Function.Injective fossilOf := fun _ _ => Text.append_left_inj.mp

theorem fossilOf_parse {path : String} (fossil : (parse path).fossil = true) :
    fossilOf (parse path).name = path := by
  have whole := parse_path path
  rwa [Logical.path, if_pos fossil] at whole

namespace Logical

/-- **A meaning is read back from its path unless it is a bare name that ends like a fossil.** -/
theorem parse_path_iff {logical : Logical} :
    parse logical.path = logical ↔ ¬ (logical.fossil = false ∧ isFossil logical.name = true) := by
  obtain ⟨name, - | -⟩ := logical
  · show parse name = ⟨name, false⟩ ↔ _
    cases ends : isFossil name with
    | false => simp [parse_of_bare ends]
    | true =>
      obtain ⟨base, rfl⟩ := isFossil_iff.mp ends
      simp
  · show parse (fossilOf name) = ⟨name, true⟩ ↔ _
    simp

/-- A bare name that is written like the fossil of another name. -/
def Collides (fossil bare : Logical) : Prop :=
  fossil.fossil = true ∧ bare.fossil = false ∧ bare.name = fossilOf fossil.name

theorem Collides.isFossil {fossil bare : Logical} (collides : fossil.Collides bare) :
    isFossil bare.name = true :=
  isFossil_iff.mpr ⟨_, collides.2.2⟩

/-- **Two meanings have the same path exactly if they are the same**, or one is a bare name that is written
like the other, a fossil. -/
theorem path_eq_iff {logical logical' : Logical} :
    logical.path = logical'.path ↔
      logical = logical' ∨ logical.Collides logical' ∨ logical'.Collides logical := by
  obtain ⟨name, - | -⟩ := logical <;> obtain ⟨name', - | -⟩ := logical'
  · show name = name' ↔ _
    simp [Collides]
  · show name = fossilOf name' ↔ _
    simp [Collides]
  · show fossilOf name = name' ↔ _
    simp [Collides, eq_comm]
  · show fossilOf name = fossilOf name' ↔ _
    simp [Collides, fossilOf_injective.eq_iff]

end Logical

/-- **What the engine sees of a name tells the name and whether it is hidden, up to one collision.** A path
read as a fossil is the path of that fossil. A name and its state are read back from the path they are
seen under unless the name is active and ends like a fossil. Two different names are seen alike exactly if one
of them is hidden and the other one is active and stored under the path of the first one's fossil. -/
theorem project_faithful :
    (∀ path, (parse path).fossil = true → fossilOf (parse path).name = path) ∧
    (∀ name state, parse (project name state) = ⟨name, state.isHidden⟩ ↔
      ¬ (state.isHidden = false ∧ ∃ start, name = start ++ ".fsl")) ∧
    ∀ name state other state', name ≠ other →
      (project name state = project other state' ↔
        (state.isHidden = true ∧ state'.isHidden = false ∧ other = name ++ ".fsl") ∨
        (state'.isHidden = true ∧ state.isHidden = false ∧ name = other ++ ".fsl")) := by
  refine ⟨fun _ => fossilOf_parse, ?_, ?_⟩
  · intro name state
    rw [project_eq_path, Logical.parse_path_iff, isFossil_iff]
    rfl
  · intro name state other state' different
    have apart : (⟨name, state.isHidden⟩ : Logical) ≠ ⟨other, state'.isHidden⟩ := fun same =>
      different (congrArg Logical.name same)
    rw [project_eq_path, project_eq_path, Logical.path_eq_iff, or_iff_right apart]
    rfl

/-- A fossil of a name that ends like a fossil itself, and an active name stored under that path. -/
theorem project_faithful_of_collision :
    (parse "a.fsl.fsl").fossil = true ∧ fossilOf (parse "a.fsl.fsl").name = "a.fsl.fsl" ∧
      "a.fsl" ≠ "a.fsl.fsl" ∧
      project "a.fsl" (.hidden "2" 0) = project "a.fsl.fsl" (.active "1" 7) := by
  obtain ⟨written, _, alike⟩ := project_faithful
  have fossil : (parse "a.fsl.fsl").fossil = true := by decide
  have different : "a.fsl" ≠ "a.fsl.fsl" := by decide
  have same := alike "a.fsl" (.hidden "2" 0) "a.fsl.fsl" (.active "1" 7) different
  exact ⟨fossil, written _ fossil, different, same.mpr (.inl ⟨rfl, rfl, by decide⟩)⟩

end FossilVault.Fossil
