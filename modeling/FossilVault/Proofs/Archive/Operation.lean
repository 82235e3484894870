import FossilVault.Proofs.Archive
/-
**Operations on an archive.** Each operation of a vault starts with at most one listing and then
makes the writes that follow from it. So what an operation writes is decided by the stack of one
name in the order in which the archive lists it.

* `Change.writes` — the writes by which a change is made;
* `Operation.writes` — the writes of an operation;
* `Archive.Compositional.ends_delete`, `Archive.Compositional.ends_move` — a deletion and a move make
  the writes of their change and no others;
* `Archive.Compositional.ends_inspect`, `Archive.Compositional.ends_listing` — what is shown is what
  the stacks show.
-/

namespace FossilVault

variable {α ω : Type}

/-! ### The writes of a change -/

/-- The versions that a purge takes away: in the order of the listing, the first marker and all
behind it. -/
def condemned (version : α → Version) (listed : List α) : List α :=
  listed.dropWhile fun stored => (version stored).content.isSome

/-- The writes by which a change of a stack is made. -/
def Change.writes (version : α → Version) (order : List α → List α) (name : String) :
    Change → List α → List Write
  | .push content, _ => [.push name (some content)]
  | .purge, stack =>
    (condemned version (order stack)).map fun stored => .remove name (version stored).id
  | .hide, top :: _ => if (version top).content.isSome then [.push name none] else []
  | .unhide, top :: _ => if (version top).content.isSome then [] else [.remove name (version top).id]
  | .pop, top :: _ => [.remove name (version top).id]
  | _, [] => []

/-- The writes of an operation on a catalog. -/
def Operation.writes (version : α → Version) (order : List α → List α) (names : Catalog α)
    (operation : Operation) : List Write :=
  match operation.change with
  | some (name, change) => change.writes version order name (names.history name)
  | none => []

theorem isHidden_eq (version : Version) : version.isHidden = !version.content.isSome := by
  cases held : version.content <;> simp [Version.isHidden, held]

theorem state_entry_none {version : Version} (held : version.content = none) (name : String) :
    (version.entry name).state = .hidden version.id 0 := by
  simp [Version.entry, Version.isHidden, Version.size, held, Entry.state]

theorem state_entry_some {version : Version} {content : Bytes} (held : version.content = some content)
    (name : String) : (version.entry name).state = .active version.id content.length := by
  simp [Version.entry, Version.isHidden, Version.size, held, Entry.state]

/-- A purge of a name deletes the condemned among its listed versions. -/
theorem doomed_map (version : α → Version) (name : String) (listed : List α) :
    Vault.doomed name (listed.map fun stored => (version stored).entry name) =
      (condemned version listed).map fun stored => (version stored).entry name := by
  have sort : ((fun entry : Entry => !(entry.name == name && entry.isHidden)) ∘ fun stored =>
      (version stored).entry name) = fun stored => (version stored).content.isSome := by
    funext stored
    simp [isHidden_eq]
  have named : (listed.dropWhile fun stored => (version stored).content.isSome).filter
      ((fun entry : Entry => entry.name == name) ∘ fun stored => (version stored).entry name) =
        listed.dropWhile fun stored => (version stored).content.isSome := by
    rw [List.filter_eq_self]
    intro stored _
    simp
  rw [Vault.doomed, List.dropWhile_map, sort, List.filter_map, condemned, named]

/-- The state of a name by a listing of all its versions. -/
theorem stateOf_shelf (version : α → Version) (order : List α → List α) (name : String)
    (stack : List α) :
    stateOf name (Catalog.shelfListing version order true (name, stack)) =
      (order stack).head?.map fun newest => ((version newest).entry name).state := by
  rw [Catalog.shelfListing, if_pos rfl]
  cases order stack with
  | nil => rfl
  | cons newest older => simp [stateOf]

/-- What is known of a file does not depend on whether markers were listed, as long as they were
when the fossil was asked for. -/
theorem infoOf_shelf (version : α → Version) {order : List α → List α} (name : String) (fossil : Bool)
    {stack : List α} (newest : (order stack).head? = stack.head?) :
    Vault.infoOf fossil (stateOf name (Catalog.shelfListing version order fossil (name, stack))) =
      Vault.infoOf fossil (stack.head?.map fun newest => ((version newest).entry name).state) := by
  cases fossil with
  | true => rw [stateOf_shelf, newest]
  | false =>
    cases stack with
    | nil => rfl
    | cons top older =>
      cases hidden : (version top).isHidden <;>
        simp [Catalog.shelfListing, Option.filter, hidden, stateOf, Vault.infoOf]

namespace Archive.Compositional

variable {archive : Archive α ω}
  {ends : {β : Type} → Program Remote.interface β → ω → Except Fault β → List Write → Prop}
  (told : archive.Compositional ends) (lawful : archive.Lawful) {world : ω}
  (sound : archive.sound world) {worker : Int} (served : archive.serves worker)

include told lawful sound served

/-! ### Changing a name -/

theorem ends_hide (name : String) :
    ends (Vault.hide worker name) world (.ok ())
      (Change.hide.writes archive.version archive.order name ((archive.names world).history name)) := by
  apply lawful.list_first told sound served
  intro world' sound' _
  rw [Catalog.listing_exact _ lawful.order_void, stateOf_shelf, lawful.order_head sound]
  cases (archive.names world).history name with
  | nil => exact told.note sound' _ _ _
  | cons top older =>
    cases held : (archive.version top).content with
    | none =>
      simp only [List.head?_cons, Option.map_some, state_entry_none held, Change.writes, held,
        Option.isSome_none, Bool.false_eq_true, if_false]
      exact told.note sound' _ _ _
    | some content =>
      simp only [List.head?_cons, Option.map_some, state_entry_some held, Change.writes, held,
        Option.isSome_some, if_true]
      obtain ⟨marker, answers⟩ := lawful.hide sound' served name
      exact told.bind (told.ask sound' answers) fun _ sound'' _ => told.note sound'' _ _ _

theorem ends_resurrect (name : String) :
    ends (Vault.resurrect worker name) world (.ok ())
      (Change.unhide.writes archive.version archive.order name ((archive.names world).history name)) := by
  apply lawful.list_first told sound served
  intro world' sound' _
  rw [Catalog.listing_exact _ lawful.order_void, stateOf_shelf, lawful.order_head sound]
  cases (archive.names world).history name with
  | nil => exact told.note sound' _ _ _
  | cons top older =>
    cases held : (archive.version top).content with
    | none =>
      simp only [List.head?_cons, Option.map_some, state_entry_none held, Change.writes, held,
        Option.isSome_none, Bool.false_eq_true, if_false]
      exact told.bind (told.ask sound' (lawful.delete sound' served name _)) fun _ sound'' _ =>
        told.note sound'' _ _ _
    | some content =>
      simp only [List.head?_cons, Option.map_some, state_entry_some held, Change.writes, held,
        Option.isSome_some, if_true]
      exact told.note sound' _ _ _

theorem ends_deleteNewest (name : String) :
    ends (Vault.deleteNewest worker name) world (.ok ())
      (Change.pop.writes archive.version archive.order name ((archive.names world).history name)) := by
  apply lawful.list_first told sound served
  intro world' sound' _
  have newest := lawful.order_head sound name
  rw [Catalog.listing_exact _ lawful.order_void, Catalog.shelfListing, if_pos rfl]
  cases stack : (archive.names world).history name with
  | nil =>
    simp only [lawful.order_void, List.map_nil]
    exact told.pure sound' ()
  | cons top older =>
    obtain ⟨others, ordered⟩ := List.head?_eq_some_iff.mp (newest.trans (by rw [stack]; rfl))
    rw [stack] at ordered
    simp only [ordered, List.map_cons]
    exact told.bind (told.ask sound' (lawful.delete sound' served name _)) fun _ sound'' _ =>
      told.note sound'' _ _ _

/-- Deleting versions one after the other takes away each of them. -/
theorem ends_deleteAll (name : String) (entries : List Entry) :
    ends (Vault.deleteAll worker name entries) world (.ok ())
      (entries.map fun entry => .remove name entry.id) := by
  induction entries generalizing world with
  | nil => exact told.pure sound ()
  | cons entry rest ih =>
    exact told.bind (told.ask sound (lawful.delete sound served name entry.id)) fun _ sound' _ => ih sound'

theorem ends_purge (name : String) :
    ends (Vault.purge worker name) world (.ok ())
      (Change.purge.writes archive.version archive.order name ((archive.names world).history name)) := by
  apply lawful.list_first told sound served
  intro world' sound' _
  rw [Catalog.listing_exact _ lawful.order_void, Catalog.shelfListing, if_pos rfl, doomed_map]
  let dead := condemned archive.version (archive.order ((archive.names world).history name))
  have same : Change.purge.writes archive.version archive.order name ((archive.names world).history name) =
      ((dead.map fun stored => (archive.version stored).entry name).map
        fun entry => .remove name entry.id) ++ [] := by
    rw [List.append_nil, List.map_map]
    rfl
  rw [same]
  refine told.bind (told.ends_deleteAll lawful sound' served name _) ?_
  intro world'' sound'' _
  split
  · exact told.note sound'' _ _ _
  · exact told.pure sound'' ()

/-- **A deletion makes the writes of its change.** -/
theorem ends_delete (path : String) :
    ends (Vault.delete worker path) world (.ok ())
      ((Operation.delete worker path).writes archive.version archive.order (archive.names world)) := by
  rcases Bool.eq_false_or_eq_true (Fossil.isFossil path) with fossil | bare
  · obtain ⟨name, rfl⟩ := Fossil.isFossil_iff.mp fossil
    rw [Operation.writes, Operation.change_purge, Vault.delete, Fossil.parse_fossilOf]
    exact told.ends_purge lawful sound served name
  · rw [Operation.writes, Operation.change_pop worker bare, Vault.delete, Fossil.parse_of_bare bare]
    exact told.ends_deleteNewest lawful sound served path

/-- **A move makes the writes of its change**, and is refused when it has none. -/
theorem ends_move (source target : String) :
    ends (Vault.move worker source target) world
      (if (Operation.move worker source target).change.isSome then .ok ()
        else .error (.unsupportedMove source target))
      ((Operation.move worker source target).writes archive.version archive.order
        (archive.names world)) := by
  by_cases back : source = Fossil.fossilOf target
  · subst back
    rw [Operation.writes, Operation.change_unhide, Vault.move_back]
    exact told.ends_resurrect lawful sound served target
  · by_cases there : target = Fossil.fossilOf source ∧ Fossil.isFossil source = false
    · obtain ⟨rfl, bare⟩ := there
      rw [Operation.writes, Operation.change_hide worker bare, Vault.move_there worker bare]
      exact told.ends_hide lawful sound served source
    · rw [Operation.writes, Operation.change_refused worker back there,
        Vault.move_refused worker back there]
      exact told.bind (told.note sound _ _ _) fun _ sound' _ => told.fail sound' _

/-! ### Showing -/

theorem ends_inspect (path : String) :
    ends (Vault.inspect worker path) world (.ok (Stacks.info path (archive.stacked world))) [] := by
  apply lawful.list_first told sound served
  intro world' sound' _
  rw [Catalog.listing_exact _ lawful.order_void,
    infoOf_shelf archive.version _ _ (lawful.order_head sound _), stacked, Catalog.info_contents]
  exact told.pure sound' _

theorem ends_listing (directory : String) :
    ends (Vault.list worker directory) world
      (.ok (Stacks.listing directory (archive.stacked world))) [] := by
  have newest : ∀ shelf ∈ (archive.names world).shelves,
      (archive.order shelf.2).head? = shelf.2.head? := by
    intro shelf among
    rw [(Catalog.mem_shelves_iff.mp among).1]
    exact lawful.order_head sound shelf.1
  unfold Vault.list Stacks.listing
  simp only
  split
  · apply lawful.list_first told sound served
    intro world' sound' _
    rw [Vault.snapshotListing_congr _ (Catalog.visible_contents _ _ _ _)]
    exact told.pure sound' _
  · split
    · apply lawful.list_first told sound served
      intro world' sound' _
      rw [Catalog.chunkListing_contents _ _ _ newest]
      exact told.pure sound' _
    · apply lawful.list_first told sound served
      intro world' sound' _
      rw [Vault.plainListing_congr _ (Catalog.visible_contents _ _ _ _)]
      exact told.pure sound' _

end Archive.Compositional

end FossilVault
