import FossilVault.Proofs.Archive.Effect
import FossilVault.Proofs.Bucket.Paced
/-
**Purges of a bucket.** A purge finds the marker and what lies below it in the order of a listing,
and that order is rebuilt from seconds. So of the contents above the marker it spares the newest one
and those of a later second: a content that was stored in the second of the marker, and covered by
another one, goes with what the marker hides.

* `Provider.delete_fossil` — what deleting a fossil leaves of every name;
* `Stored.listedAbove_eq_iff` — when the contents above a marker are all listed above it;
* `Provider.purge_spares_iff` — a purge spares them exactly then;
* `Paced.purge_takes_covered` — an upload that a purge takes, all within one second.
-/

namespace FossilVault.Bucket

namespace Stored

variable {newer older : List Stored} {marker : Stored}

/-- The contents above a marker are listed above it unless one below the newest is of its second. -/
theorem listedAbove_eq_iff (descending : Descending (newer ++ marker :: older)) :
    listedAbove marker newer = newer ↔ ∀ stored ∈ newer.drop 1, stored.second ≠ marker.second := by
  have halves := List.take_append_drop 1 newer
  have low : ∀ stored ∈ newer, marker.second ≤ stored.second := by
    intro stored among
    exact (List.pairwise_append.mp descending).2.2 stored among marker (.head older)
  have later : ∀ stored ∈ newer.drop 1,
      marker.second < stored.second ↔ stored.second ≠ marker.second := by
    intro stored among
    have floor := low stored (List.mem_of_mem_drop among)
    omega
  rw [listedAbove]
  constructor
  · intro same stored among
    have tails : (newer.drop 1).filter (fun stored => marker.second < stored.second) = newer.drop 1 :=
      List.append_cancel_left (same.trans halves.symm)
    exact (later stored among).mp (by simpa using List.filter_eq_self.mp tails stored among)
  · intro apart
    have tails : (newer.drop 1).filter (fun stored => marker.second < stored.second) =
        newer.drop 1 := by
      rw [List.filter_eq_self]
      intro stored among
      exact decide_eq_true ((later stored among).mpr (apart stored among))
    rw [tails]
    exact halves

end Stored

namespace Provider

variable {ω : Type} {provider : Provider ω} {connection : Connection} {world : ω}

/-- Deleting a fossil leaves of its name what a listing puts before every marker, and all of the
others. -/
theorem delete_fossil (lawful : provider.Lawful) (chosen : connection.bucket = some provider.bucket)
    (sound : provider.sound world) (orderly : provider.Orderly world) {worker : Int}
    (served : 0 ≤ worker ∧ worker < connection.pool.size) (name : String) (session : Session) :
    let ended := (Vault.delete worker (Fossil.fossilOf name)).run (Connection.remote provider.handler) session
      (connection, world)
    let flagged := Flagged.ofStack ((provider.names world).history name)
    ended.1 = .ok () ∧ ∀ other, (provider.names ended.2.2.2).history other =
      if other = name then (flagged.filter (Stored.survives flagged)).map Flagged.stored
      else (provider.names world).history other := by
  have ready : (provider.archive connection).sound (connection, world) := ⟨rfl, sound, orderly⟩
  have archived := archive_lawful lawful chosen
  obtain ⟨last, ⟨_, world'⟩, run, _, _, reached⟩ :=
    (archived.runs_compositional session.desk).ends_delete archived ready served (Fossil.fossilOf name)
      session rfl
  let stack := (provider.names world).history name
  have written : (Operation.delete worker (Fossil.fossilOf name)).writes Stored.version Stored.relist
      (provider.names world) =
        ((condemned Stored.version (Stored.relist stack)).map fun dead => dead.version.id).map
          (Write.remove name) := by
    rw [Operation.writes, Operation.change_purge, List.map_map]
    rfl
  have wrote : (provider.names world).Wrote Stored.version
      (((condemned Stored.version (Stored.relist stack)).map fun dead => dead.version.id).map
        (Write.remove name)) (provider.names world') := by
    rw [← written]
    exact reached
  change (Vault.delete worker (Fossil.fossilOf name)).run (Connection.remote provider.handler) session
    (connection, world) = _ at run
  simp only [run]
  refine ⟨trivial, ?_⟩
  intro other
  rw [wrote.removals, Catalog.history_replace, Stored.spared_relist (orderly name).distinct]

/-- **A purge spares the contents above the marker** exactly when none of them below the newest was
made in the second of the marker; any such is taken with the marker and all below it, and nothing
else is. -/
theorem purge_spares_iff (lawful : provider.Lawful) (chosen : connection.bucket = some provider.bucket)
    (reached : provider.Reached world) {worker : Int}
    (served : 0 ≤ worker ∧ worker < connection.pool.size) (name : String) (session : Session) :
    let ended := (Vault.delete worker (Fossil.fossilOf name)).run (Connection.remote provider.handler) session
      (connection, world)
    let stack := (provider.names world).history name
    let left := (provider.names ended.2.2.2).history name
    ended.1 = .ok () ∧
    (∀ other, other ≠ name →
      (provider.names ended.2.2.2).history other = (provider.names world).history other) ∧
    ((∀ stored ∈ stack, stored.isMarker = false) → left = stack) ∧
    ∀ newer marker older, stack = newer ++ marker :: older → (∀ stored ∈ newer, stored.isMarker = false) →
      marker.isMarker = true →
        left = newer.take 1 ++ (newer.drop 1).filter (fun stored => marker.second < stored.second) ∧
        (left = newer ↔ ∀ stored ∈ newer.drop 1, stored.second ≠ marker.second) := by
  obtain ⟨sound, orderly⟩ := orderly_of_reached lawful reached
  obtain ⟨done, histories⟩ := delete_fossil lawful chosen sound orderly served name session
  have left := (histories name).trans (if_pos rfl)
  refine ⟨done, ?_, ?_, ?_⟩
  · intro other apart
    exact (histories other).trans (if_neg apart)
  · intro contents
    exact left.trans (Stored.filter_survives_contents contents)
  · intro newer marker older stack contents hidden
    have descending := (orderly name).descending
    rw [stack] at left descending
    have above := left.trans (Stored.filter_survives descending hidden contents)
    refine ⟨above, ?_⟩
    rw [← Stored.listedAbove_eq_iff descending, ← above]

end Provider

/-! ### Two uploads over a marker -/

namespace Paced

/-- A name that was stored, hidden, and stored twice again. -/
def storedOver (pauses : List Nat) : Paced :=
  let put (content : Bytes) (paced : Paced) : Paced :=
    (answer (.putObject 0 "bkt" "n" (.plain content) content.length "") {} paced).2.2
  let hide (paced : Paced) : Paced := (answer (.deleteObject 0 "bkt" "n" none) {} paced).2.2
  put [121] (put [120] (hide (put [97] ⟨{}, pauses⟩)))

theorem reached_storedOver {pauses : List Nat} (short : span pauses < 1000000) :
    (provider "bkt").Reached (storedOver pauses) := by
  have start : (provider "bkt").Reached ⟨{}, pauses⟩ := .start (sound_start short) rfl
  have stored := start.put 0 "n" (.plain [97]) "" {}
  have hidden := stored.hide 0 "n" {}
  exact (hidden.put 0 "n" (.plain [120]) "" {}).put 0 "n" (.plain [121]) "" {}

/-- A second lies between the marker and the uploads over it, and a purge spares both. -/
theorem purge_spares_later :
    let world := storedOver [0, 0, 1, 0]
    let ended := (Vault.delete 0 "n.fsl").run (Connection.remote answer) {} (⟨⟨1, [0]⟩, some "bkt"⟩, world)
    (provider "bkt").Reached world ∧ ended.1 = .ok () ∧
    (ended.2.2.2.service.namesOf "bkt").history "n" =
      [⟨"v4", 1700000001, some [121]⟩, ⟨"v3", 1700000001, some [120]⟩] := by
  intro world ended
  have reached : (provider "bkt").Reached world := reached_storedOver (by decide)
  let connection : Connection := ⟨⟨1, [0]⟩, some "bkt"⟩
  have served : (0 : Int) ≤ 0 ∧ 0 < connection.pool.size := by decide
  obtain ⟨done, _, _, above⟩ := Provider.purge_spares_iff (provider_lawful "bkt") rfl reached served "n" {}
  have spared := above [⟨"v4", 1700000001, some [121]⟩, ⟨"v3", 1700000001, some [120]⟩]
    ⟨"v2", 1700000000, none⟩ [⟨"v1", 1700000000, some [97]⟩] rfl (by decide) rfl
  exact ⟨reached, done, spared.2.mpr (by decide)⟩

/-- **A purge takes an upload that came after the marker**: within one second, a second upload
covers it. -/
theorem purge_takes_covered :
    let world := storedOver []
    let ended := (Vault.delete 0 "n.fsl").run (Connection.remote answer) {} (⟨⟨1, [0]⟩, some "bkt"⟩, world)
    (provider "bkt").Reached world ∧ ended.1 = .ok () ∧
    (world.service.namesOf "bkt").history "n" =
      [⟨"v4", 1700000000, some [121]⟩, ⟨"v3", 1700000000, some [120]⟩, ⟨"v2", 1700000000, none⟩,
        ⟨"v1", 1700000000, some [97]⟩] ∧
    (ended.2.2.2.service.namesOf "bkt").history "n" = [⟨"v4", 1700000000, some [121]⟩] := by
  intro world ended
  have reached : (provider "bkt").Reached world := reached_storedOver (by decide)
  let connection : Connection := ⟨⟨1, [0]⟩, some "bkt"⟩
  have served : (0 : Int) ≤ 0 ∧ 0 < connection.pool.size := by decide
  obtain ⟨sound, orderly⟩ := Provider.orderly_of_reached (provider_lawful "bkt") reached
  obtain ⟨done, histories⟩ := Provider.delete_fossil (provider_lawful "bkt") rfl sound orderly served "n" {}
  refine ⟨reached, done, rfl, ?_⟩
  exact (histories "n").trans rfl

end Paced

end FossilVault.Bucket
