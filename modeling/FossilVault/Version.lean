/-
**Versions.** A remote reports the versions of its names as flat entries, newest first within a name.
What counts for the vault is the state of a name: what its newest version is. Two readings of a list of
entries give it, one for a single name and one for all names at once:

* `stateOf` — the state of one name, by the first entry of a list;
* `leaders` — the first entry of every run of equal names;
* `leaders_cons` — an entry leads iff its name differs from the one before it;
* `mem_of_mem_leaders`, `length_leaders_le` — the leaders are some of the entries.
-/

namespace FossilVault

/-- What a stored version is: content, or a marker that hides what lies below it. -/
inductive Action
  | active | hidden
  deriving DecidableEq, Repr

/-- The state of a name: what its newest version is. -/
inductive State
  | active (id : String) (size : Int)
  | hidden (id : String) (size : Int)
  deriving DecidableEq, Repr

namespace State

/-- Tells whether the newest version is a marker. -/
def isHidden : State → Bool
  | .active .. => false
  | .hidden .. => true

/-- The newest version's identifier. -/
def id : State → String
  | .active id _ | .hidden id _ => id

/-- The newest version's size. -/
def size : State → Int
  | .active _ size | .hidden _ size => size

end State

/-- One version of a stored name. -/
structure Entry where
  name : String
  id : String
  action : Action
  size : Int := 0
  deriving DecidableEq, Repr

namespace Entry

/-- Tells whether the version is a marker. -/
def isHidden (entry : Entry) : Bool :=
  entry.action == .hidden

/-- The state of the name when this is its newest version. -/
def state (entry : Entry) : State :=
  match entry.action with
  | .active => .active entry.id entry.size
  | .hidden => .hidden entry.id entry.size

@[simp] theorem state_isHidden (entry : Entry) : entry.state.isHidden = entry.isHidden := by
  unfold state isHidden
  cases entry.action <;> rfl

@[simp] theorem state_id (entry : Entry) : entry.state.id = entry.id := by
  unfold state
  cases entry.action <;> rfl

@[simp] theorem state_size (entry : Entry) : entry.state.size = entry.size := by
  unfold state
  cases entry.action <;> rfl

end Entry

/-! ### The newest version of a name -/

/-- The state of `name` by the first entry; nothing when there is none or when it has another name, as
happens when a listing by prefix starts with a longer name. -/
def stateOf (name : String) : List Entry → Option State
  | [] => none
  | entry :: _ => if entry.name = name then some entry.state else none

/-- The leaders of a list that comes after an entry named `last`. -/
def leadersAfter (last : String) : List Entry → List Entry
  | [] => []
  | entry :: rest =>
    if entry.name = last then leadersAfter last rest else entry :: leadersAfter entry.name rest

/-- The first entry of every run of equal names. -/
def leaders : List Entry → List Entry
  | [] => []
  | entry :: rest => entry :: leadersAfter entry.name rest

@[simp] theorem leaders_nil : leaders [] = [] := rfl

theorem leaders_cons (entry : Entry) (rest : List Entry) :
    leaders (entry :: rest) = entry :: leadersAfter entry.name rest := rfl

theorem mem_of_mem_leadersAfter {last : String} {entries : List Entry} {entry : Entry}
    (leads : entry ∈ leadersAfter last entries) : entry ∈ entries := by
  induction entries generalizing last with
  | nil => exact leads
  | cons first rest ih =>
    unfold leadersAfter at leads
    split at leads
    · exact .tail _ (ih leads)
    · rcases List.mem_cons.mp leads with same | later
      · exact same ▸ .head _
      · exact .tail _ (ih later)

theorem mem_of_mem_leaders {entries : List Entry} {entry : Entry} (leads : entry ∈ leaders entries) :
    entry ∈ entries := by
  cases entries with
  | nil => exact leads
  | cons first rest =>
    rcases List.mem_cons.mp leads with same | later
    · exact same ▸ .head _
    · exact .tail _ (mem_of_mem_leadersAfter later)

theorem length_leadersAfter_le (last : String) (entries : List Entry) :
    (leadersAfter last entries).length ≤ entries.length := by
  induction entries generalizing last with
  | nil => exact Nat.le_refl _
  | cons first rest ih =>
    unfold leadersAfter
    split
    · exact Nat.le_succ_of_le (ih last)
    · exact Nat.succ_le_succ (ih first.name)

theorem length_leaders_le (entries : List Entry) : (leaders entries).length ≤ entries.length := by
  cases entries with
  | nil => exact Nat.le_refl _
  | cons first rest => exact Nat.succ_le_succ (length_leadersAfter_le first.name rest)

end FossilVault
