import FossilVault.Bucket.Listing
import FossilVault.Bucket.Service
import FossilVault.Proofs.Sorting
/-
**Posted items.** What a service posts in the pages of a listing: versions and markers with every field that
a listing asks for, and in each page the markers apart. A listing reads them page by page, the versions of a
page first, so it gets the items of each kind in the order in which they were posted.

* `Posted.listed` — what is read of an item;
* `Listing.ofPages_posted` — all pages are read, whatever was posted and however it was cut into pages.
-/

namespace FossilVault.Bucket

/-! ### Instants -/

namespace Listing

/-- A number of microseconds that a double of seconds keeps apart from its neighbours, as it does until the
year 2242. -/
def Fine (micros : Int) : Prop :=
  micros.natAbs < Nat.pow 2 33 * 1000000

/-- The size of an instant. -/
def magnitude (micros : Nat) : Nat :=
  Number.significant (micros * Nat.pow 2 72) 1000000

theorem instantOf_eq (micros : Int) :
    instantOf micros = if micros < 0 then -(magnitude micros.natAbs : Int) else magnitude micros.natAbs := rfl

theorem magnitude_mono {micros micros' : Nat} (grows : micros ≤ micros') :
    magnitude micros ≤ magnitude micros' :=
  Number.significant_mono (Nat.mul_le_mul_right _ grows) (by decide)

theorem magnitude_lt {micros micros' : Nat} (fine : micros' < Nat.pow 2 33 * 1000000)
    (grows : micros < micros') : magnitude micros < magnitude micros' := by
  have scale : 1000000 * Nat.pow 2 52 < Nat.pow 2 72 := by decide
  have power : Nat.pow 2 33 * Nat.pow 2 72 = Nat.pow 2 (53 + 52) := by decide
  unfold magnitude
  generalize Nat.pow 2 72 = tick at scale power ⊢
  refine @Number.significant_lt _ _ _ 52 (by decide) ?_ ?_
  · rw [Nat.div_lt_iff_lt_mul (by decide), ← power]
    have ticks := Nat.mul_lt_mul_of_pos_right fine (Nat.lt_of_le_of_lt (Nat.zero_le _) scale)
    rwa [Nat.mul_right_comm] at ticks
  · calc
      _ < micros * tick + tick := Nat.add_lt_add_left scale _
      _ = (micros + 1) * tick := (Nat.succ_mul micros tick).symm
      _ ≤ micros' * tick := Nat.mul_le_mul_right _ grows

/-- **An earlier time is no later instant.** -/
theorem instantOf_mono {micros micros' : Int} (grows : micros ≤ micros') :
    instantOf micros ≤ instantOf micros' := by
  rw [instantOf_eq, instantOf_eq]
  have up (low : 0 ≤ micros) := magnitude_mono (show micros.natAbs ≤ micros'.natAbs by omega)
  have down (high : micros' < 0) := magnitude_mono (show micros'.natAbs ≤ micros.natAbs by omega)
  split <;> split <;> omega

/-- **An earlier time is an earlier instant** where microseconds are told apart. -/
theorem instantOf_lt {micros micros' : Int} (fine : Fine micros) (fine' : Fine micros')
    (grows : micros < micros') : instantOf micros < instantOf micros' := by
  rw [instantOf_eq, instantOf_eq]
  have up (low : 0 ≤ micros) := magnitude_lt fine' (show micros.natAbs < micros'.natAbs by omega)
  have down (high : micros' < 0) := magnitude_lt fine (show micros'.natAbs < micros.natAbs by omega)
  have across (low : micros < 0) := magnitude_lt fine (show 0 < micros.natAbs by omega)
  split <;> split <;> omega

end Listing

/-! ### Items -/

/-- A version or a marker as it is posted; its time is in microseconds since 1970. -/
structure Posted where
  marker : Bool
  key : String
  id : String
  latest : Option Bool := none
  modified : Int
  size : Option Int := none
  deriving DecidableEq, Repr

namespace Posted

/-- The item of a page, and whether it is a marker. -/
def item (posted : Posted) : Bool × Item :=
  (posted.marker, {
    key := some posted.key
    id := some posted.id
    latest := posted.latest
    modified := some posted.modified
    size := posted.size })

/-- What is listed of it. -/
def entry (posted : Posted) : Entry where
  name := posted.key
  id := posted.id
  action := if posted.marker then .hidden else .active
  size := if posted.marker then 0 else posted.size.getD 0

/-- What is read of it. -/
def listed (posted : Posted) : Listed where
  entry := posted.entry
  latest := posted.latest.getD false
  instant := Listing.instantOf posted.modified

/-- A page with its versions and its markers apart. -/
def page (posted : List Posted) : Page :=
  Service.page (posted.map item)

@[simp] theorem isHidden_entry (posted : Posted) : posted.entry.isHidden = posted.marker := by
  unfold Entry.isHidden entry
  cases posted.marker <;> rfl

end Posted

namespace Listing

theorem mapM_map_eq_ok {α β γ : Type} {f : β → Except Fault γ} {g : α → β} {k : α → γ}
    {elements : List α} (each : ∀ element ∈ elements, f (g element) = .ok (k element)) :
    (elements.map g).mapM f = .ok (elements.map k) := by
  induction elements with
  | nil => rfl
  | cons first rest ih =>
    have later : (rest.map g).mapM f = .ok (rest.map k) := by
      apply ih
      intro element among
      exact each element (.tail _ among)
    rw [List.map_cons, List.mapM_cons, each first (.head _), later]
    rfl

theorem ofPage_posted (posted : List Posted) :
    ofPage (Posted.page posted) = .ok ((Sorting.kindLast Posted.marker posted).map Posted.listed) := by
  have versions : ((posted.filter fun one => !one.marker).map fun one => one.item.2).mapM ofVersion =
      .ok ((posted.filter fun one => !one.marker).map Posted.listed) := by
    apply mapM_map_eq_ok
    rintro ⟨marker, key, id, latest, modified, size⟩ among
    cases marker with
    | true => cases (List.mem_filter.mp among).2
    | false => rfl
  have markers : ((posted.filter Posted.marker).map fun one => one.item.2).mapM ofMarker =
      .ok ((posted.filter Posted.marker).map Posted.listed) := by
    apply mapM_map_eq_ok
    rintro ⟨marker, key, id, latest, modified, size⟩ among
    cases marker with
    | true => rfl
    | false => cases (List.mem_filter.mp among).2
  have page : Posted.page posted =
      ⟨(posted.filter fun one => !one.marker).map fun one => one.item.2,
        (posted.filter Posted.marker).map fun one => one.item.2⟩ := by
    rw [Posted.page, Service.page, List.filter_map, List.filter_map, List.map_map, List.map_map]
    rfl
  rw [page, ofPage, versions, markers, Sorting.kindLast, List.map_append]
  rfl

/-- **All pages are read**, each with its versions first. -/
theorem ofPages_posted (cuts : List (List Posted)) :
    ofPages (cuts.map Posted.page) =
      .ok ((cuts.flatMap (Sorting.kindLast Posted.marker)).map Posted.listed) := by
  rw [ofPages, mapM_map_eq_ok fun cut _ => ofPage_posted cut, List.map_flatMap, List.flatMap_def]
  rfl

end Listing

end FossilVault.Bucket
