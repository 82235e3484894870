import FossilVault.Settings.EnvFile.Binding
/-
**Variables of an environment file.** A variable in braces with a dollar sign in front stands for the
value of an earlier name, or else of the surrounding environment. A name that was given no value stands
for nothing, and so does a name that nobody knows, unless a default is written behind it.

* `EnvFile.resolve` — the last value of each name, with the variables replaced;
* `value_setLast` — a later binding of a name takes the place of the earlier one;
* `expand_plain` — a text without dollar signs has no variables.
-/

namespace FossilVault.EnvFile

/-- The variable that follows a dollar sign: its name, its default and what follows the braces. -/
def variableAt : List Char → Option (List Char × Option (List Char) × List Char)
  | '\x7b' :: text =>
    let ends := fun c => c == '\x7d' || c == ':'
    let name := text.takeWhile (!ends ·)
    match text.dropWhile (!ends ·) with
    | '\x7d' :: rest => some (name, none, rest)
    | ':' :: '-' :: text =>
      match text.dropWhile (· != '\x7d') with
      | _ :: rest => some (name, some (text.takeWhile (· != '\x7d')), rest)
      | [] => none
    | _ => none
  | _ => none

/-- The text with its variables replaced, in at most `steps` steps, behind what was seen of it in
reverse: by what `look` gives for the name, by the default for a name that it does not know, and by
nothing without one. -/
def expandIn (look : List Char → Option (Option (List Char))) (seen : List Char) :
    Nat → List Char → List Char
  | 0, text => seen.reverse ++ text
  | _ + 1, [] => seen.reverse
  | steps + 1, '$' :: text =>
    match variableAt text with
    | some (name, default, rest) =>
      let value := match look name with
        | some known => known.getD []
        | none => default.getD []
      expandIn look (value.reverse ++ seen) steps rest
    | none => expandIn look ('$' :: seen) steps text
  | steps + 1, c :: text => expandIn look (c :: seen) steps text

/-- The text with its variables replaced. -/
def expand (look : List Char → Option (Option (List Char))) (text : List Char) : List Char :=
  expandIn look [] text.length text

/-- The value of a name in a list of pairs. -/
def value {β : Type} (name : List Char) : List (List Char × β) → Option β
  | [] => none
  | (other, value') :: rest => if other = name then some value' else value name rest

/-- Gives a name a value, at the place where it stands or at the end. -/
def setLast {β : Type} (name : List Char) (given : β) : List (List Char × β) → List (List Char × β)
  | [] => [(name, given)]
  | (other, value') :: rest =>
    if other = name then (name, given) :: rest else (other, value') :: setLast name given rest

/-- The values of the names bound so far. -/
abbrev Resolved := List (List Char × Option (List Char))

/-- Takes one more binding into the values. -/
def resolveOne (environment : List (List Char × List Char)) (values : Resolved) (binding : Binding) :
    Resolved :=
  let look := fun name =>
    match value name values with
    | some known => some known
    | none => (value name environment).map some
  setLast binding.name (binding.value.map (expand look)) values

/-- The values of the names of a text: a name stands where it was first bound and has what it was bound
to last, which may be no value. -/
def resolve (environment : List (String × String)) (text : String) : List (String × Option String) :=
  let surroundings := environment.reverse.map fun pair => (pair.1.toList, pair.2.toList)
  ((bindings text).foldl (resolveOne surroundings) []).map fun pair =>
    (.ofList pair.1, pair.2.map .ofList)

theorem value_setLast {β : Type} (name other : List Char) (given : β) (pairs : List (List Char × β)) :
    value other (setLast name given pairs) = if other = name then some given else value other pairs := by
  induction pairs with
  | nil =>
    by_cases same : other = name
    · simp [setLast, value, same]
    · simp [setLast, value, same, Ne.symm same]
  | cons first rest ih =>
    obtain ⟨key, before⟩ := first
    by_cases at_first : key = name
    · subst at_first
      by_cases same : other = key
      · simp [setLast, value, same]
      · simp [setLast, value, same, Ne.symm same]
    · by_cases found : key = other
      · subst found
        simp [setLast, value, at_first]
      · simp [setLast, value, at_first, found, ih]

theorem expandIn_plain (look : List Char → Option (Option (List Char))) {text : List Char}
    (plain : ∀ c ∈ text, c ≠ '$') (seen : List Char) (steps : Nat) :
    expandIn look seen steps text = seen.reverse ++ text := by
  induction steps generalizing text seen with
  | zero => rfl
  | succ steps ih =>
    cases text with
    | nil => simp [expandIn]
    | cons c text =>
      have here : c ≠ '$' := plain c (.head _)
      have later := ih (fun c among => plain c (.tail _ among)) (c :: seen)
      unfold expandIn
      split <;> simp_all

theorem expand_plain (look : List Char → Option (Option (List Char))) {text : List Char}
    (plain : ∀ c ∈ text, c ≠ '$') : expand look text = text :=
  expandIn_plain look plain [] text.length

end FossilVault.EnvFile
