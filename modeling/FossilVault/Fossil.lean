import FossilVault.Text.Basic
import FossilVault.Version
/-
**Fossils.** The backup engine knows a hidden object under the name of the object with `.fsl` behind it.
This name is never stored: a path splits into the stored name and whether it means the fossil, and a
stored name with its state gives the path that the engine sees.

* `parse_path` — a parsed path is written back as it was;
* `parse_fossilOf` — the fossil of a name is parsed as that name's fossil;
* `isFossil_iff` — the fossil paths are those of the form `name ++ ".fsl"`.
-/

namespace FossilVault.Fossil

/-- What stands behind the name of a hidden object. -/
def suffix : String := ".fsl"

/-- Tells whether a path means a fossil. -/
def isFossil (path : String) : Bool :=
  Text.endsWith path suffix

/-- The path of the fossil of a stored name. -/
def fossilOf (name : String) : String :=
  name ++ suffix

/-- What a path means: a stored name, and whether its fossil is meant. -/
structure Logical where
  name : String
  fossil : Bool
  deriving DecidableEq, Repr

/-- The path that means this. -/
def Logical.path (logical : Logical) : String :=
  if logical.fossil then fossilOf logical.name else logical.name

/-- Splits a path into a stored name and whether its fossil is meant. -/
def parse (path : String) : Logical :=
  if isFossil path then ⟨Text.chop suffix.length path, true⟩ else ⟨path, false⟩

/-- The path that the engine sees for a stored name in a state. -/
def project (name : String) (state : State) : String :=
  if state.isHidden then fossilOf name else name

theorem isFossil_iff {path : String} : isFossil path = true ↔ ∃ name, path = fossilOf name :=
  Text.endsWith_iff

@[simp] theorem isFossil_fossilOf (name : String) : isFossil (fossilOf name) = true :=
  isFossil_iff.mpr ⟨name, rfl⟩

theorem fossilOf_ne (name : String) : fossilOf name ≠ name := by
  intro same
  have nothing : name ++ suffix = name ++ "" := same.trans String.append_empty.symm
  exact absurd (Text.append_right_inj.mp nothing) (by decide)

@[simp] theorem parse_fossilOf (name : String) : parse (fossilOf name) = ⟨name, true⟩ := by
  rw [parse, if_pos (isFossil_fossilOf name), fossilOf, Text.chop_append]

theorem parse_of_bare {path : String} (bare : isFossil path = false) : parse path = ⟨path, false⟩ := by
  simp [parse, bare]

theorem parse_path (path : String) : (parse path).path = path := by
  rcases Bool.eq_false_or_eq_true (isFossil path) with fossil | bare
  · obtain ⟨name, rfl⟩ := isFossil_iff.mp fossil
    simp [Logical.path]
  · simp [parse_of_bare bare, Logical.path]

end FossilVault.Fossil
