import FossilVault.Proofs.Ledger.Retry
import FossilVault.Proofs.Paired
import FossilVault.Proofs.Sorting
/-
**A purge and those who read meanwhile.** A purge takes away what is hidden and what lies below it. Readers
see the newest content of a name, so none of them can tell whether the fossils were purged; only the fossil
itself is gone from the listing. What is left has no marker, so there is nothing to purge again.

* `Ledger.spare` — what a purge leaves;
* `Ledger.held_spare`, `Ledger.opened_spare` — what is held under a name stays, and is opened alike;
* `Ledger.rests_spare` — of the stored names a purge takes away at most the purged one;
* `Ledger.download_alike` — a download depends on nothing but how its name is opened;
* `Ledger.purge_unseen` — a purge is done once for all and changes nothing but the listing of its fossil.
-/

namespace FossilVault.Ledger

variable {vault : Vault} {ledger : Ledger} {name : String}

/-! ### What a purge leaves -/

/-- The ledger without the first marker of a name and what lies below it. -/
def spare (name : String) (ledger : Ledger) : Ledger :=
  { ledger with names := ledger.names.replace name (ledger.alive name) }

theorem history_spare (name : String) (ledger : Ledger) (other : String) :
    (ledger.spare name).history other = if other = name then ledger.alive name else ledger.history other :=
  Catalog.history_replace ledger.names name _ other

/-- The newest version of a name is spared exactly if it is a content. -/
theorem head_alive (name : String) (ledger : Ledger) :
    (ledger.alive name).head? = (ledger.history name).head?.filter (·.content.isSome) :=
  List.head?_takeWhile ..

/-- Nothing is left of a stored name exactly if its newest version is a marker. -/
theorem isEmpty_alive (stored : ledger.history name ≠ []) :
    (ledger.alive name).isEmpty = (ledger.history name).head?.any Version.isHidden := by
  obtain ⟨newest, older, stack⟩ := List.exists_cons_of_ne_nil stored
  rw [alive, stack]
  cases held : newest.content <;> simp [held, Version.isHidden]

theorem alive_spare (name : String) (ledger : Ledger) :
    (ledger.spare name).alive name = ledger.alive name := by
  have contents : ∀ version ∈ ledger.alive name, version.content.isSome = true :=
    fun _ => isSome_of_mem_alive
  have again : List.takeWhile (fun version : Version => version.content.isSome) (ledger.alive name ++ []) =
      _ := List.takeWhile_append_of_pos contents
  rw [List.append_nil, List.takeWhile_nil, List.append_nil] at again
  rwa [alive, history_spare, if_pos rfl]

/-- **Where a purge was, another one finds nothing.** -/
theorem spare_spare (name : String) (ledger : Ledger) :
    (ledger.spare name).spare name = ledger.spare name := by
  refine eq_of_names (Catalog.ext_history fun other => ?_) rfl
  show ((ledger.spare name).spare name).history other = (ledger.spare name).history other
  rw [history_spare, alive_spare]
  by_cases same : other = name
  · rw [if_pos same, history_spare, if_pos same]
  · rw [if_neg same]

/-- **What is held under a name stays**, be it the purged name or another. -/
theorem held_spare (name : String) (ledger : Ledger) (path : String) :
    Stacks.held path (archive.stacked (ledger.spare name)) = Stacks.held path (archive.stacked ledger) := by
  rw [Stacks.held, Stacks.held, history_stacked, history_stacked, history_spare]
  by_cases same : path = name
  · rw [if_pos same, same, List.head?_map, List.head?_map, head_alive]
    cases (ledger.history name).head? with
    | none => rfl
    | some newest => cases held : newest.content <;> simp [Option.filter, held]
  · rw [if_neg same]

/-- **A name is opened as before**, or refused as before. -/
theorem opened_spare (name : String) (ledger : Ledger) (path : String) :
    (ledger.spare name).opened path = ledger.opened path := by
  unfold opened
  rw [history_spare]
  by_cases same : path = name
  · rw [if_pos same, same, alive]
    cases ledger.history name with
    | nil => rfl
    | cons newest older =>
      obtain ⟨id, content⟩ := newest
      cases content <;> rfl
  · rw [if_neg same]

/-- **Of the stored names a purge takes away at most the purged one.** -/
theorem rests_spare (name : String) (ledger : Ledger) (stem : String) :
    Stacks.rests stem (archive.stacked (ledger.spare name)) =
      (Stacks.rests stem (archive.stacked ledger)).filter fun rest =>
        !(stem ++ rest == name && (ledger.alive name).isEmpty) := by
  refine Sorting.eq_of_ascending (Stacks.pairwise_rests _ _) ((Stacks.pairwise_rests _ _).filter _) ?_
  intro rest
  rw [List.mem_filter, mem_rests_iff, mem_rests_iff, history_spare]
  by_cases same : stem ++ rest = name
  · have stored : ledger.alive name ≠ [] → ledger.history name ≠ [] := by
      intro left void
      rw [alive, void] at left
      exact left rfl
    simpa [same] using stored
  · simp [same]

/-- The one stored name that is taken away from the others. -/
theorem split_filter {stem rest : String} {rests : List String} (ascending : rests.Pairwise (· < ·))
    (among : rest ∈ rests) :
    ∃ earlier later, rests = earlier ++ rest :: later ∧
      rests.filter (fun other => !(stem ++ other == stem ++ rest)) = earlier ++ later := by
  have others : (fun other => !(stem ++ other == stem ++ rest)) = (· != rest) := by
    funext other
    rw [Bool.eq_iff_iff]
    simp
  obtain ⟨earlier, later, _, whole, erased⟩ := List.exists_erase_eq among
  rw [(Sorting.nodup_of_ascending ascending).erase_eq_filter] at erased
  exact ⟨earlier, later, whole, others ▸ erased⟩

/-! ### Downloads -/

/-- **A download depends on nothing but how its name is opened.** -/
theorem download_alike {first second : Ledger} {path : String} (same : first.opened path = second.opened path)
    (viewer : Int) (destination : Sink) (look : Session) :
    let got := vault.step answer (look, first) (.download viewer path destination)
    let got' := vault.step answer (look, second) (.download viewer path destination)
    got.1 = got'.1 ∧ got.2.1 = got'.2.1 := by
  have blind : ∀ c, (Operation.download viewer path destination).Makes c →
      answer.Blind (fun ledger ledger' => ledger.opened path = ledger'.opened path) c := by
    rintro _ ⟨⟩ session ledger ledger' alike
    exact ⟨alike, rfl, alike⟩
  obtain ⟨outcome, left, _⟩ :=
    Program.InPairs.of_only (vault.only_perform _) blind look first second same
  exact ⟨outcome, left⟩

/-! ### Listings -/

/-- The chunks that are stored under these names, as they are listed. -/
def chunksOf (rests : List String) (ledger : Ledger) : Listing where
  files := rests.map fun rest =>
    if (ledger.history ("chunks/" ++ rest)).head?.any Version.isHidden then Fossil.fossilOf rest else rest
  sizes := rests.map fun rest => (((ledger.history ("chunks/" ++ rest)).head?.map Version.size).getD 0 : Nat)

theorem chunksOf_eq {rests : List String}
    (stored : ∀ rest ∈ rests, ledger.history ("chunks/" ++ rest) ≠ []) :
    ledger.chunksOf rests = {
      files := rests.map (Stacks.file "chunks/" (archive.stacked ledger))
      sizes := rests.map (Stacks.fileSize "chunks/" (archive.stacked ledger)) } := by
  rw [chunksOf]
  congr 1
  · apply List.map_congr_left
    intro rest among
    rw [Stacks.file, isSome_held (stored rest among)]
    cases (ledger.history ("chunks/" ++ rest)).head?.any Version.isHidden <;> rfl
  · apply List.map_congr_left
    intro rest _
    rw [Stacks.fileSize, Stacks.held, history_stacked, List.head?_map]
    cases (ledger.history ("chunks/" ++ rest)).head? <;> rfl

theorem listing_chunksOf (ledger : Ledger) :
    Stacks.listing "chunks" (archive.stacked ledger) =
      ledger.chunksOf (Stacks.rests "chunks/" (archive.stacked ledger)) := by
  rw [Stacks.listing_chunks (show Vault.bareDirectory "chunks" = "chunks" by decide),
    chunksOf_eq fun _ => mem_rests_iff.mp]
  rfl

/-- **The chunks after a purge are listed as before it**, those that are left. -/
theorem listing_spare (name : String) (ledger : Ledger) :
    Stacks.listing "chunks" (archive.stacked (ledger.spare name)) =
      ledger.chunksOf ((Stacks.rests "chunks/" (archive.stacked ledger)).filter fun rest =>
        !("chunks/" ++ rest == name && (ledger.alive name).isEmpty)) := by
  have file : Stacks.file "chunks/" (archive.stacked (ledger.spare name)) =
      Stacks.file "chunks/" (archive.stacked ledger) := by
    funext rest
    rw [Stacks.file, Stacks.file, held_spare]
  have fileSize : Stacks.fileSize "chunks/" (archive.stacked (ledger.spare name)) =
      Stacks.fileSize "chunks/" (archive.stacked ledger) := by
    funext rest
    rw [Stacks.fileSize, Stacks.fileSize, held_spare]
  rw [Stacks.listing_chunks (show Vault.bareDirectory "chunks" = "chunks" by decide), chunksOf_eq,
    show Vault.stemOf "chunks" = "chunks/" from rfl, rests_spare, file, fileSize]
  intro rest among
  exact mem_rests_iff.mp (List.mem_filter.mp among).1

/-! ### What is seen -/

/-- **A purge is done once for all, and whoever reads files does not see it.** A second one changes nothing.
A look at a bare path tells the same before and after, and a download gives the same bytes or the same fault.
The purged fossil is not found any more. The chunks are listed as before, without the entry of the purged name
if that is a chunk with a marker on top. All that is asked of the ledger is that identifiers tell the versions
of the purged name apart. -/
theorem purge_unseen (vault : Vault) {ledger : Ledger} {name : String}
    (distinct : ((ledger.history name).map (·.id)).Nodup) (worker : Int) (session : Session) :
    let once := ledger.purged vault worker name session
    (vault.step answer (session, ledger) (.delete worker (Fossil.fossilOf name))).1 = .ok .done ∧
    (∀ worker session,
      let ended := vault.step answer (session, once) (.delete worker (Fossil.fossilOf name))
      ended.1 = .ok .done ∧ ended.2.2 = once) ∧
    (∀ viewer look path, Fossil.isFossil path = false →
      (vault.step answer (look, once) (.inspect viewer path)).1 =
        (vault.step answer (look, ledger) (.inspect viewer path)).1) ∧
    (∀ viewer look path destination,
      let got := vault.step answer (look, once) (.download viewer path destination)
      let before := vault.step answer (look, ledger) (.download viewer path destination)
      got.1 = before.1 ∧ got.2.1 = before.2.1) ∧
    (∀ viewer look, once.Misses vault viewer look (Fossil.fossilOf name)) ∧
    ∃ rests kept : List String,
      (rests.map ("chunks/" ++ ·)).Pairwise (· < ·) ∧
      (∀ rest, rest ∈ rests ↔ ledger.history ("chunks/" ++ rest) ≠ []) ∧
      (∀ viewer look, vault.step answer (look, ledger) (.list viewer "chunks") =
        (.ok (.listing (ledger.chunksOf rests)), look, ledger)) ∧
      (∀ viewer look, vault.step answer (look, once) (.list viewer "chunks") =
        (.ok (.listing (ledger.chunksOf kept)), look, once)) ∧
      (∀ rest, name = "chunks/" ++ rest → (ledger.history name).head?.any Version.isHidden = true →
        ∃ earlier later, rests = earlier ++ rest :: later ∧ kept = earlier ++ later) ∧
      ((∀ rest, name ≠ "chunks/" ++ rest) ∨ (ledger.history name).head?.any Version.isHidden = false →
        kept = rests) := by
  intro once
  have purges (worker : Int) (session : Session) {ledger : Ledger}
      (distinct : ((ledger.history name).map (·.id)).Nodup) :
      ∃ session', vault.step answer (session, ledger) (.delete worker (Fossil.fossilOf name)) =
        (.ok .done, session', ledger.spare name) := step_purge vault distinct worker session
  have whole : once = ledger.spare name := purged_of_distinct vault distinct worker
  clear_value once
  subst whole
  have spared : (((ledger.spare name).history name).map (·.id)).Nodup := by
    rw [history_spare, if_pos rfl]
    exact distinct.sublist ((List.takeWhile_sublist _).map _)
  refine ⟨?_, ?_, ?_, ?_, ?_, ?_⟩
  · obtain ⟨_, stepped⟩ := purges worker session distinct
    rw [stepped]
  · intro worker session
    obtain ⟨_, stepped⟩ := purges worker session spared
    rw [stepped, spare_spare]
    exact ⟨rfl, rfl⟩
  · intro viewer look path bare
    rw [step_inspect, step_inspect, Stacks.info_bare bare, Stacks.info_bare bare, held_spare]
  · intro viewer look path destination
    exact download_alike (opened_spare name ledger path) viewer destination look
  · intro viewer look
    rw [misses_iff_not_finds]
    intro size found
    obtain ⟨marker, older, stack, hidden, _⟩ := finds_fossil_iff.mp found
    have content : marker.content.isSome = true := by
      rw [history_spare, if_pos rfl] at stack
      exact (Option.filter_eq_some_iff.mp ((head_alive name ledger).symm.trans (by rw [stack]; rfl))).2
    rw [isHidden_eq, content] at hidden
    cases hidden
  · let rests := Stacks.rests "chunks/" (archive.stacked ledger)
    have ascending : rests.Pairwise (· < ·) := Stacks.pairwise_rests _ _
    have stored (rest : String) : rest ∈ rests ↔ ledger.history ("chunks/" ++ rest) ≠ [] := mem_rests_iff
    refine ⟨rests, rests.filter fun rest => !("chunks/" ++ rest == name && (ledger.alive name).isEmpty),
      ?_, stored, ?_, ?_, ?_, ?_⟩
    · rw [List.pairwise_map]
      exact ascending.imp Text.append_lt_append_iff.mpr
    · intro viewer look
      rw [step_list, listing_chunksOf]
    · intro viewer look
      rw [step_list, listing_spare]
    · rintro rest rfl marked
      have inside : ledger.history ("chunks/" ++ rest) ≠ [] := by
        intro void
        rw [void] at marked
        cases marked
      rw [← isEmpty_alive inside] at marked
      simp only [marked, Bool.and_true]
      exact split_filter ascending ((stored rest).mpr inside)
    · intro other
      rw [List.filter_eq_self]
      intro rest among
      rcases other with apart | active
      · simp [Ne.symm (apart rest)]
      · by_cases same : "chunks/" ++ rest = name
        · subst same
          rw [← isEmpty_alive ((stored rest).mp among)] at active
          simp [active]
        · simp [same]

/-- A chunk with two markers among its versions, between two others. -/
theorem purge_unseen_of_chunk :
    let ledger := (Vault.after {} answer [.upload 0 "chunks/a" [1], .upload 0 "chunks/b" [2],
      .move 0 "chunks/b" "chunks/b.fsl", .upload 0 "chunks/b" [3], .move 0 "chunks/b" "chunks/b.fsl",
      .upload 0 "chunks/c" [4, 5]] ({}, {})).2
    let once := ledger.purged {} 0 "chunks/b" {}
    ((ledger.history "chunks/b").map (·.id)).Nodup ∧
      (ledger.history "chunks/b").head?.any Version.isHidden = true ∧
      once.Misses {} 1 {} (Fossil.fossilOf "chunks/b") ∧
      ∃ earlier later,
        Vault.step {} answer ({}, ledger) (.list 1 "chunks") =
          (.ok (.listing (ledger.chunksOf (earlier ++ "b" :: later))), {}, ledger) ∧
        Vault.step {} answer ({}, once) (.list 1 "chunks") =
          (.ok (.listing (ledger.chunksOf (earlier ++ later))), {}, once) := by
  intro ledger once
  have distinct : ((ledger.history "chunks/b").map (·.id)).Nodup := by decide +kernel
  have marked : (ledger.history "chunks/b").head?.any Version.isHidden = true := by decide +kernel
  obtain ⟨_, _, _, _, misses, rests, kept, _, _, before, after, taken, _⟩ :=
    purge_unseen {} distinct 0 {}
  obtain ⟨earlier, later, rfl, rfl⟩ := taken "b" rfl marked
  exact ⟨distinct, marked, misses 1 {}, earlier, later, before 1 {}, after 1 {}⟩

end FossilVault.Ledger
