import FossilVault.Bucket.Request
import FossilVault.Version
/-
**Listings from pages.** A service lists versions in pages, each with its versions and its markers apart.
A listing puts them in the order of the contract: by name, and within a name the newest first. Which one
is newest is told by the latest flag, then by the time, and at equal times a marker comes before the
version that it hides. The pages do not matter, only their items do.

* `Listing.inOrder_trans`, `Listing.inOrder_total` — the order within a name compares any two versions;
* `Listing.entries` — the entries that the pages of a listing hold.
-/

namespace FossilVault.Bucket

/-- A listed version with what decides its place among the versions of its name. -/
structure Listed where
  entry : Entry
  latest : Bool
  instant : Int
  deriving DecidableEq, Repr

namespace Listing

/-- A time in microseconds as a double of seconds, in units of `2 ^ -72` seconds: times that are the
same double compare as equal. -/
def instantOf (micros : Int) : Int :=
  let magnitude : Int := Number.significant (micros.natAbs * Nat.pow 2 72) 1000000
  if micros < 0 then -magnitude else magnitude

/-- The value of a field that has to be there. -/
def required {α : Type} (field : String) : Option α → Except Fault α
  | some value => .ok value
  | none => .error (.missingField field)

/-- A version of a page as it is listed; a version without a size counts as empty, and one without the
latest flag as not the latest. -/
def ofVersion (item : Item) : Except Fault Listed := do
  let name ← required "Key" item.key
  let id ← required "VersionId" item.id
  let micros ← required "LastModified" item.modified
  return ⟨⟨name, id, .active, item.size.getD 0⟩, item.latest.getD false, instantOf micros⟩

/-- A marker of a page as it is listed. -/
def ofMarker (item : Item) : Except Fault Listed := do
  let name ← required "Key" item.key
  let id ← required "VersionId" item.id
  let micros ← required "LastModified" item.modified
  return ⟨⟨name, id, .hidden, 0⟩, item.latest.getD false, instantOf micros⟩

/-- The items of a page, versions first. -/
def ofPage (page : Page) : Except Fault (List Listed) := do
  let versions ← page.versions.mapM ofVersion
  let markers ← page.markers.mapM ofMarker
  return versions ++ markers

/-- The items of all pages. -/
def ofPages (pages : List Page) : Except Fault (List Listed) := do
  return (← pages.mapM ofPage).flatten

/-- Tells whether `a` may come before `b`: the latest first, then the later, then the marker. -/
def inOrder (a b : Listed) : Bool :=
  if a.latest != b.latest then a.latest
  else if a.instant != b.instant then b.instant < a.instant
  else a.entry.isHidden || !b.entry.isHidden

/-- The listed versions of a name, newest first; versions that nothing tells apart keep their order. -/
def versionsOf (name : String) (listed : List Listed) : List Entry :=
  ((listed.filter (·.entry.name == name)).mergeSort inOrder).map (·.entry)

/-- The listed names in ascending order. -/
def namesOf (listed : List Listed) : List String :=
  (listed.map (·.entry.name)).eraseDups.mergeSort (· ≤ ·)

/-- The listing that a remote gives: all versions, or the newest one of each name that is not hidden;
with `exact` those of the name `stem` only. -/
def arrange (stem : String) (exact withHidden : Bool) (listed : List Listed) : List Entry :=
  ((namesOf listed).filter fun name => !exact || name == stem).flatMap fun name =>
    let versions := versionsOf name listed
    if withHidden then versions
    else (versions.head?.filter fun newest => !newest.isHidden).toList

/-- The entries that the pages of a listing hold. -/
def entries (stem : String) (exact withHidden : Bool) (pages : List Page) :
    Except Fault (List Entry) := do
  return arrange stem exact withHidden (← ofPages pages)

theorem inOrder_total (a b : Listed) : (inOrder a b || inOrder b a) = true := by
  unfold inOrder
  cases a.latest <;> cases b.latest <;> simp <;> grind

theorem inOrder_trans (a b c : Listed) (first : inOrder a b = true) (second : inOrder b c = true) :
    inOrder a c = true := by
  unfold inOrder at *
  grind

end Listing

end FossilVault.Bucket
