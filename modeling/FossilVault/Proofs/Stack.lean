import FossilVault.Catalog
import FossilVault.Proofs.Operation
/-
**Stacks.** What the operations of a vault come to, said without a remote: every name has a stack of
contents and markers, and an operation makes at most one change, to the stack of one name. The
versions may be of any type, as long as it is known what each holds; a content is `some`, a marker
`none`.

* `Change.map_on` — a change looks at nothing but what the versions hold;
* `Catalog.history_turn` — a change of one name leaves the stacks of all others alone;
* `Operation.change_unhide`, `Operation.change_hide`, `Operation.change_refused` — what a move
  means;
* `Vault.move_back`, `Vault.move_there`, `Vault.move_refused` — what a move does;
* `Operation.change_purge`, `Operation.change_pop` — what a deletion means.
-/

namespace FossilVault

/-- A change of the stack of one name. -/
inductive Change
  /-- Puts a content on top. -/
  | push (content : Bytes)
  /-- Puts a marker on a content that is on top. -/
  | hide
  /-- Takes away a marker that is on top. -/
  | unhide
  /-- Takes away what is on top. -/
  | pop
  /-- Takes away the first marker and all that is below it. -/
  | purge
  deriving DecidableEq, Repr

namespace Change

variable {α β : Type}

/-- The stack after a change: `content` tells what a version holds, and `new` makes the version that
is put on top. -/
def on (content : α → Option Bytes) (new : Option Bytes → α) : Change → List α → List α
  | .push bytes, stack => new (some bytes) :: stack
  | .purge, stack => stack.takeWhile fun version => (content version).isSome
  | .hide, top :: rest => if (content top).isSome then new none :: top :: rest else top :: rest
  | .unhide, top :: rest => if (content top).isSome then top :: rest else rest
  | .pop, _ :: rest => rest
  | _, [] => []

/-- Tells whether a change puts a version on top. -/
def grows (content : α → Option Bytes) : Change → List α → Bool
  | .push _, _ => true
  | .hide, top :: _ => (content top).isSome
  | _, _ => false

/-- **A change looks at contents only.** -/
theorem map_on {content : α → Option Bytes} {new : Option Bytes → α} {content' : β → Option Bytes}
    {f : α → β} (same : ∀ version, content' (f version) = content version) (change : Change)
    (stack : List α) :
    (change.on content new stack).map f = change.on content' (fun held => f (new held)) (stack.map f) := by
  cases change with
  | push bytes => rfl
  | purge =>
    simp only [on, List.takeWhile_map]
    congr 2
    funext version
    exact congrArg Option.isSome (same version).symm
  | hide =>
    cases stack with
    | nil => rfl
    | cons top rest =>
      simp only [on, List.map_cons, same]
      split <;> rfl
  | unhide =>
    cases stack with
    | nil => rfl
    | cons top rest =>
      simp only [on, List.map_cons, same]
      split <;> rfl
  | pop => cases stack <;> rfl

/-- What a change that grows a stack puts on top. -/
def gains : Change → Option Bytes
  | .push bytes => some bytes
  | _ => none

theorem grows_map {content : α → Option Bytes} {content' : β → Option Bytes} {f : α → β}
    (same : ∀ version, content' (f version) = content version) (change : Change) (stack : List α) :
    change.grows content' (stack.map f) = change.grows content stack := by
  cases change <;> cases stack <;> simp [grows, same]

theorem on_grown {content : α → Option Bytes} {change : Change} {stack : List α}
    (grown : change.grows content stack = true) (new : Option Bytes → α) :
    change.on content new stack = new change.gains :: stack := by
  cases change with
  | push bytes => rfl
  | hide =>
    cases stack with
    | nil => cases grown
    | cons top rest => exact if_pos grown
  | unhide | pop | purge => cases grown

/-- A change that does not grow a stack makes no version. -/
theorem on_still {content : α → Option Bytes} {change : Change} {stack : List α}
    (still : change.grows content stack = false) (new new' : Option Bytes → α) :
    change.on content new stack = change.on content new' stack := by
  cases change with
  | push bytes => cases still
  | hide =>
    cases stack with
    | nil => rfl
    | cons top rest =>
      have hidden : ¬ (content top).isSome = true := by simpa [grows] using still
      simp only [on, if_neg hidden]
  | unhide | pop => cases stack <;> rfl
  | purge => rfl

theorem on_void {content : α → Option Bytes} {change : Change}
    (still : change.grows content [] = false) (new : Option Bytes → α) : change.on content new [] = [] := by
  cases change with
  | push bytes => cases still
  | hide | unhide | pop | purge => rfl

theorem on_pop (content : α → Option Bytes) (new : Option Bytes → α) (stack : List α) :
    pop.on content new stack = stack.tail := by
  cases stack <;> rfl

end Change

/-! ### The change that an operation makes -/

namespace Operation

/-- The name whose stack an operation changes and the change it makes, if it makes one. A move that
is neither to a fossil nor back from one makes none. -/
def change : Operation → Option (String × Change)
  | .upload _ path content => some (path, .push content)
  | .move _ source target =>
    if source = Fossil.fossilOf target then some (target, .unhide)
    else if target = Fossil.fossilOf source ∧ Fossil.isFossil source = false then some (source, .hide)
    else none
  | .delete _ path =>
    let logical := Fossil.parse path
    some (logical.name, if logical.fossil then .purge else .pop)
  | .download .. | .inspect .. | .list .. | .makeDirectory .. => none

theorem change_unhide (worker : Int) (name : String) :
    (move worker (Fossil.fossilOf name) name).change = some (name, .unhide) :=
  if_pos rfl

theorem change_hide (worker : Int) {name : String} (bare : Fossil.isFossil name = false) :
    (move worker name (Fossil.fossilOf name)).change = some (name, .hide) := by
  have notBack : name ≠ Fossil.fossilOf (Fossil.fossilOf name) := fun same => by
    rw [same, Fossil.isFossil_fossilOf] at bare
    cases bare
  rw [change, if_neg notBack, if_pos ⟨rfl, bare⟩]

theorem change_refused (worker : Int) {source target : String}
    (notBack : source ≠ Fossil.fossilOf target)
    (notThere : ¬ (target = Fossil.fossilOf source ∧ Fossil.isFossil source = false)) :
    (move worker source target).change = none := by
  rw [change, if_neg notBack, if_neg notThere]

theorem change_purge (worker : Int) (name : String) :
    (delete worker (Fossil.fossilOf name)).change = some (name, .purge) := by
  rw [change, Fossil.parse_fossilOf]
  rfl

theorem change_pop (worker : Int) {name : String} (bare : Fossil.isFossil name = false) :
    (delete worker name).change = some (name, .pop) := by
  rw [change, Fossil.parse_of_bare bare]
  rfl

end Operation

namespace Vault

theorem move_back (worker : Int) (name : String) :
    move worker (Fossil.fossilOf name) name = resurrect worker name := by
  simp [move]

theorem move_there (worker : Int) {name : String} (bare : Fossil.isFossil name = false) :
    move worker name (Fossil.fossilOf name) = hide worker name := by
  simp [move, Fossil.parse_of_bare bare]

theorem move_refused (worker : Int) {source target : String}
    (notBack : source ≠ Fossil.fossilOf target)
    (notThere : ¬ (target = Fossil.fossilOf source ∧ Fossil.isFossil source = false)) :
    move worker source target = refuseMove source target := by
  rcases Bool.eq_false_or_eq_true (Fossil.isFossil source) with fossil | bare
  · obtain ⟨name, rfl⟩ := Fossil.isFossil_iff.mp fossil
    have different : name ≠ target := fun same => notBack (congrArg Fossil.fossilOf same)
    simp [move, different]
  · have different : target ≠ Fossil.fossilOf source := fun same => notThere ⟨same, bare⟩
    simp [move, Fossil.parse_of_bare bare, different]

end Vault

/-! ### Catalogs of stacks -/

namespace Catalog

variable {α β : Type}

/-- The catalog with every version replaced by its image. -/
def map (f : α → β) (catalog : Catalog α) : Catalog β where
  shelves := catalog.shelves.map fun shelf => (shelf.1, shelf.2.map f)
  ascending := by
    rw [List.pairwise_map]
    exact catalog.ascending
  inhabited shelf among := by
    obtain ⟨before, inside, rfl⟩ := List.mem_map.mp among
    exact fun void => catalog.inhabited before inside (List.map_eq_nil_iff.mp void)

theorem lookup_map (f : α → β) (name : String) (shelves : List (String × List α)) :
    lookup name (shelves.map fun shelf => (shelf.1, shelf.2.map f)) = (lookup name shelves).map f := by
  induction shelves with
  | nil => rfl
  | cons first rest ih =>
    simp only [List.map_cons, lookup]
    split
    · rfl
    · exact ih

@[simp] theorem history_map (f : α → β) (catalog : Catalog α) (name : String) :
    (catalog.map f).history name = (catalog.history name).map f :=
  lookup_map f name catalog.shelves

/-- A change of the stack of one name. -/
def turn (content : α → Option Bytes) (new : Option Bytes → α) (name : String) (change : Change)
    (catalog : Catalog α) : Catalog α :=
  catalog.replace name (change.on content new (catalog.history name))

theorem history_turn (content : α → Option Bytes) (new : Option Bytes → α) (name : String)
    (change : Change) (catalog : Catalog α) (other : String) :
    (catalog.turn content new name change).history other =
      if other = name then change.on content new (catalog.history name) else catalog.history other :=
  history_replace catalog name _ other

end Catalog

end FossilVault
