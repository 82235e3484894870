import FossilVault.Proofs.Ledger.Interrupted
import FossilVault.Proofs.Ledger.Look
/-
**A purge that is tried again.** What an interrupted purge leaves is no fossil any more: another purge
starts at the next marker, and what lies above it has come back to light.

* `Ledger.step_purge` — what a whole purge leaves;
* `Ledger.purged_cut` — what a purge makes of what an interrupted one left;
* `Ledger.retry_purges_iff` — a second purge ends where one whole purge ends exactly if the failing
  deletion was that of a marker, and exactly then, or below newer contents, nothing comes back to
  light;
* `Ledger.retry_leaves_content` — a hidden content that comes back to light for good.
-/

namespace FossilVault.Ledger

variable {number : Nat} {fault : Fault} {session : Session} {ledger : Ledger}
variable (vault : Vault)

/-! ### A whole purge -/

/-- The ledger that a whole purge leaves. -/
def purged (vault : Vault) (worker : Int) (name : String) (session : Session) (ledger : Ledger) :
    Ledger :=
  (vault.step answer (session, ledger) (.delete worker (Fossil.fossilOf name))).2.2

/-- Deletions one after the other take away each of the versions. -/
theorem run_deleteAll (worker : Int) (name : String) (entries : List Entry) (session : Session)
    (ledger : Ledger) :
    (Vault.deleteAll worker name entries).run answer session ledger =
      (.ok (), session, (entries.map fun entry => Write.remove name entry.id).foldl write ledger) := by
  induction entries generalizing ledger with
  | nil => rfl
  | cons entry rest ih => exact ih (ledger.remove name entry.id)

/-- **A whole purge leaves what lies above the first marker**, as long as identifiers tell the versions of
the name apart. -/
theorem step_purge {name : String} (distinct : ((ledger.history name).map (·.id)).Nodup) (worker : Int)
    (session : Session) :
    ∃ session', vault.step answer (session, ledger) (.delete worker (Fossil.fossilOf name)) =
      (.ok .done, session', { ledger with names := ledger.names.replace name (ledger.alive name) }) := by
  have listed : answer (.list worker name true true) session ledger =
      (.ok (ledger.entries name true true), session, ledger) := rfl
  have gone : ((ledger.dead name).map fun version => Write.remove name version.id).foldl write ledger =
      { ledger with names := ledger.names.replace name (ledger.alive name) } := by
    have whole := foldl_cut distinct (ledger.dead name).length
    rwa [List.take_length, cut, List.drop_length, List.append_nil] at whole
  rw [Vault.step, Vault.perform, Vault.delete, Fossil.parse_fossilOf]
  simp only [if_true]
  rw [Program.run_bind, Vault.purge, Program.run_bind, Remote.run_ask, listed]
  simp only
  rw [Program.run_bind, doomed_entries, run_deleteAll, List.map_map, ← gone]
  cases ((ledger.dead name).map (·.entry name)).isEmpty with
  | true => exact ⟨_, rfl⟩
  | false => exact ⟨_, rfl⟩

theorem purged_of_distinct {name : String} (distinct : ((ledger.history name).map (·.id)).Nodup)
    (worker : Int) :
    ledger.purged vault worker name session =
      { ledger with names := ledger.names.replace name (ledger.alive name) } := by
  obtain ⟨session', stepped⟩ := step_purge vault distinct worker session
  rw [purged, stepped]

theorem purged_eq (sound : ledger.Sound) (worker : Int) (name : String) :
    ledger.purged vault worker name session =
      { ledger with names := ledger.names.replace name (ledger.alive name) } :=
  purged_of_distinct vault (sound.distinct name) worker

theorem purged_cut (sound : ledger.Sound) (worker : Int) (name : String) (count : Nat) :
    (ledger.cut name count).purged vault worker name session = { ledger with
      names := ledger.names.replace name
        (ledger.alive name ++ ((ledger.dead name).drop count).takeWhile (·.content.isSome)) } := by
  rw [purged_eq vault (sound.cut name count)]
  refine eq_of_names (Catalog.ext_history ?_) rfl
  intro other
  rw [Catalog.history_replace, Catalog.history_replace]
  by_cases same : other = name
  · rw [if_pos same, if_pos same, alive, history_cut, if_pos rfl, List.takeWhile_append_of_pos]
    exact fun _ => isSome_of_mem_alive
  · rw [if_neg same, if_neg same]
    exact (history_cut name count ledger other).trans (if_neg same)

/-! ### What comes back to light -/

/-- The version that a purge takes away at this place is a marker. -/
def MarkerAt (name : String) (count : Nat) (ledger : Ledger) : Prop :=
  ∃ marker, (ledger.dead name)[count]? = some marker ∧ marker.isHidden = true

theorem info_eq (path : String) (ledger : Ledger) :
    Stacks.info path (archive.stacked ledger) =
      Vault.infoOf (Fossil.parse path).fossil
        ((ledger.history (Fossil.parse path).name).head?.map fun newest =>
          (newest.entry (Fossil.parse path).name).state) :=
  Catalog.info_contents id ledger.names path

theorem inspect_bare (ledger : Ledger) (viewer : Int) {name : String}
    (bare : Fossil.isFossil name = false) :
    (vault.step answer (session, ledger) (.inspect viewer name)).1 =
      .ok (.info (Vault.infoOf false
        ((ledger.history name).head?.map fun newest => (newest.entry name).state))) := by
  rw [step_inspect, info_eq, Fossil.parse_of_bare bare]

/-- A bare name is absent exactly if its newest version is a marker or there is none. -/
theorem infoOf_eq_absent_iff (name : String) (stack : List Version) :
    Vault.infoOf false (stack.head?.map fun newest => (newest.entry name).state) =
        ⟨false, false, 0⟩ ↔
      ∀ top ∈ stack.head?, top.isHidden = true := by
  cases stack with
  | nil => simp [Vault.infoOf]
  | cons top rest => cases hidden : top.isHidden <;> simp [Vault.infoOf, hidden]

theorem hidden_of_head_dead {name : String} {ledger : Ledger} :
    ∀ top ∈ (ledger.dead name).head?, top.isHidden = true := by
  intro top first
  have marker := List.head?_dropWhile_not (fun version : Version => version.content.isSome)
    (ledger.history name)
  rw [show (ledger.history name).dropWhile _ = ledger.dead name from rfl, first] at marker
  rw [isHidden_eq, marker]
  rfl

/-- What is known of a purged name stays the same if it is a fossil's, if newer contents stay, or if
what comes next is hidden. -/
theorem info_replace_iff (name : String) (ledger : Ledger) (rest : List Version) :
    Stacks.info name (archive.stacked
        { ledger with names := ledger.names.replace name (ledger.alive name ++ rest) }) =
        Stacks.info name (archive.stacked ledger) ↔
      Fossil.isFossil name = true ∨ ledger.alive name ≠ [] ∨
        ∀ top ∈ rest.head?, top.isHidden = true := by
  have replaced (other : String) : history
      { ledger with names := ledger.names.replace name (ledger.alive name ++ rest) } other =
        if other = name then ledger.alive name ++ rest else ledger.history other :=
    Catalog.history_replace ledger.names name _ other
  rw [info_eq, info_eq]
  rcases Bool.eq_false_or_eq_true (Fossil.isFossil name) with fossil | bare
  · obtain ⟨base, rfl⟩ := Fossil.isFossil_iff.mp fossil
    rw [Fossil.parse_fossilOf, replaced, if_neg (Fossil.fossilOf_ne base).symm]
    exact ⟨fun _ => .inl fossil, fun _ => rfl⟩
  · rw [Fossil.parse_of_bare bare, replaced, if_pos rfl, ← alive_append_dead]
    by_cases newer : ledger.alive name = []
    · have absent := (infoOf_eq_absent_iff name (ledger.dead name)).mpr hidden_of_head_dead
      rw [newer, List.nil_append, List.nil_append, absent, infoOf_eq_absent_iff]
      simp [bare]
    · obtain ⟨top, others, stack⟩ := List.exists_cons_of_ne_nil newer
      rw [stack]
      simp

theorem markerAt_iff {name : String} {ledger : Ledger} {count : Nat}
    (within : count < (ledger.dead name).length) :
    ledger.MarkerAt name count ↔
      ∀ top ∈ ((ledger.dead name).drop count).head?, top.isHidden = true := by
  rw [MarkerAt, List.head?_drop]
  simp [List.getElem?_eq_getElem within]

/-- A stack starts with no content exactly if it starts with a marker or is empty. -/
theorem takeWhile_eq_nil_iff (stack : List Version) :
    stack.takeWhile (·.content.isSome) = [] ↔ ∀ top ∈ stack.head?, top.isHidden = true := by
  cases stack with
  | nil => simp
  | cons next rest => cases held : next.content <;> simp [held, Version.isHidden]

/-- A marker on top is no content, so what comes next is hidden only if there is nothing. -/
theorem head_takeWhile_iff (stack : List Version) :
    (∀ top ∈ (stack.takeWhile (·.content.isSome)).head?, top.isHidden = true) ↔
      ∀ top ∈ stack.head?, top.isHidden = true := by
  rw [List.head?_takeWhile]
  cases stack with
  | nil => simp
  | cons next rest => cases held : next.content <;> simp [Option.filter, held, Version.isHidden]

/-- **A second purge ends where one whole purge ends exactly if the failing deletion was that of a
marker.** It leaves what an interrupted purge did not come to, down to the next marker; and what is
known of the name changes, in between and for good, exactly if a content that was below the first
marker comes back to light. -/
theorem retry_purges_iff (operations : List Operation) (setup session again look : Session)
    (worker worker' viewer : Int) (name : String) (number : Nat) (fault : Fault) :
    let ledger := (vault.after answer operations (setup, {})).2
    let failed := cutShort vault number fault worker name session ledger
    let left := failed.2.2.world
    let retried := left.purged vault worker' name again
    let info (state : Ledger) := (vault.step answer (look, state) (.inspect viewer name)).1
    failed.1 = .error fault →
      (1 ≤ number ∧ number ≤ (ledger.dead name).length) ∧
      (∀ other, left.history other =
        if other = name then ledger.alive name ++ (ledger.dead name).drop (number - 1)
        else ledger.history other) ∧
      (∀ other, retried.history other =
        if other = name then
          ledger.alive name ++ ((ledger.dead name).drop (number - 1)).takeWhile (·.content.isSome)
        else ledger.history other) ∧
      (retried = ledger.purged vault worker name session ↔ ledger.MarkerAt name (number - 1)) ∧
      (info left = info ledger ↔
        Fossil.isFossil name = true ∨ ledger.alive name ≠ [] ∨ ledger.MarkerAt name (number - 1)) ∧
      (info retried = info ledger ↔
        Fossil.isFossil name = true ∨ ledger.alive name ≠ [] ∨ ledger.MarkerAt name (number - 1)) := by
  intro ledger failed left retried info aborted
  have sound : ledger.Sound := sound_after vault operations setup
  have reached : 1 ≤ number ∧ number ≤ (ledger.dead name).length := by
    by_cases reached : 1 ≤ number ∧ number ≤ (ledger.dead name).length
    · exact reached
    · have ended : failed.1 = .ok .done := cutShort_ok vault worker name reached
      cases ended.symm.trans aborted
  have within : number - 1 < (ledger.dead name).length := by omega
  have next := markerAt_iff within
  have cut : left = ledger.cut name (number - 1) := by
    obtain ⟨calls, ran⟩ := cutShort_error vault (sound.distinct name) worker reached.1 reached.2
    exact congrArg (fun ended : Vault.Ended _ => ended.2.2.world) ran
  have again_purged : retried = { ledger with
      names := ledger.names.replace name
        (ledger.alive name ++ ((ledger.dead name).drop (number - 1)).takeWhile (·.content.isSome)) } := by
    rw [← purged_cut vault sound worker' name (number - 1), ← cut]
  refine ⟨reached, ?_, ?_, ?_, ?_, ?_⟩
  · intro other
    rw [cut, history_cut]
  · intro other
    rw [again_purged]
    exact Catalog.history_replace ledger.names name _ other
  · rw [again_purged, purged_eq vault sound, next, ← takeWhile_eq_nil_iff]
    constructor
    · intro same
      have stacked := congrArg (history · name) same
      simp only [history, Catalog.history_replace, if_true] at stacked
      exact List.append_right_eq_self.mp stacked
    · intro nothing
      rw [nothing, List.append_nil]
  · simp only [info, step_inspect, Except.ok.injEq, Answer.info.injEq]
    rw [cut, next]
    exact info_replace_iff name ledger _
  · simp only [info, step_inspect, Except.ok.injEq, Answer.info.injEq]
    rw [again_purged, next, ← head_takeWhile_iff]
    exact info_replace_iff name ledger _

/-- The second of two markers: what it hid is gone before, so a purge can be taken up there. -/
theorem retry_from_marker :
    let operations : List Operation := [.upload 0 "n" [1], .move 0 "n" "n.fsl", .upload 0 "n" [2],
      .move 0 "n" "n.fsl", .upload 0 "n" [3]]
    let ledger := (Vault.after {} answer operations ({}, {})).2
    let failed := cutShort {} 3 (.external .system "boom") 0 "n" {} ledger
    failed.1 = .error (.external .system "boom") ∧
      failed.2.2.world.purged {} 1 "n" {} = ledger.purged {} 0 "n" {} := by
  intro operations ledger failed
  have stack : ledger.history "n" =
      [⟨"v5", some [3]⟩, ⟨"v4", none⟩, ⟨"v3", some [2]⟩, ⟨"v2", none⟩, ⟨"v1", some [1]⟩] := rfl
  have dead : ledger.dead "n" =
      [⟨"v4", none⟩, ⟨"v3", some [2]⟩, ⟨"v2", none⟩, ⟨"v1", some [1]⟩] := by
    rw [Ledger.dead, stack]
    rfl
  have marker : ledger.MarkerAt "n" (3 - 1) := ⟨⟨"v2", none⟩, by rw [dead]; rfl, rfl⟩
  have aborted : failed.1 = .error (.external .system "boom") := by
    obtain ⟨calls, ran⟩ := cutShort_error {} ((sound_after {} operations {}).distinct "n") 0 (by decide)
      (show 3 ≤ (ledger.dead "n").length by rw [dead]; decide)
    exact congrArg Prod.fst ran
  have settled := retry_purges_iff {} operations {} {} {} {} 0 1 0 "n" 3 _ aborted
  exact ⟨aborted, settled.2.2.2.1.mpr marker⟩

/-- **A hidden content comes back to light for good**: the marker is gone when the deletion of the
content fails, and no other purge finds anything to take away. -/
theorem retry_leaves_content :
    let ledger := (Vault.after {} answer [.upload 0 "n" [120], .move 0 "n" "n.fsl"] ({}, {})).2
    let fault := Fault.external .system "boom"
    let failed := cutShort {} 2 fault 0 "n" {} ledger
    let left := failed.2.2.world
    let retried := left.purged {} 0 "n" {}
    let info (state : Ledger) := (Vault.step {} answer ({}, state) (.inspect 0 "n")).1
    failed.1 = .error fault ∧ retried ≠ ledger.purged {} 0 "n" {} ∧
      info ledger = .ok (.info ⟨false, false, 0⟩) ∧ info left = .ok (.info ⟨true, false, 1⟩) ∧
      info retried = .ok (.info ⟨true, false, 1⟩) := by
  intro ledger fault failed left retried info
  have sound : ledger.Sound := sound_after {} _ {}
  have stack : ledger.history "n" = [⟨"v2", none⟩, ⟨"v1", some [120]⟩] := rfl
  have alive : ledger.alive "n" = [] := by
    rw [Ledger.alive, stack]
    rfl
  have dead : ledger.dead "n" = [⟨"v2", none⟩, ⟨"v1", some [120]⟩] := by
    rw [Ledger.dead, stack]
    rfl
  obtain ⟨calls, ran⟩ := cutShort_error {} (sound.distinct "n") 0 (by decide)
    (show 2 ≤ (ledger.dead "n").length by rw [dead]; decide)
  have cut : left = ledger.cut "n" 1 :=
    congrArg (fun ended : Vault.Ended _ => ended.2.2.world) ran
  have leftStack : left.history "n" = [⟨"v1", some [120]⟩] := by
    rw [cut, history_cut, if_pos rfl, alive, dead]
    rfl
  have retriedStack : retried.history "n" = [⟨"v1", some [120]⟩] := by
    rw [show retried = _ from congrArg (Ledger.purged {} 0 "n" {}) cut, purged_cut {} sound, history,
      Catalog.history_replace, if_pos rfl, alive, dead]
    rfl
  refine ⟨congrArg Prod.fst ran, ?_, ?_, ?_, ?_⟩
  · intro same
    rw [same, purged_eq {} sound, history, Catalog.history_replace, if_pos rfl, alive] at retriedStack
    cases retriedStack
  · refine (inspect_bare {} ledger 0 (by decide)).trans ?_
    rw [stack]
    rfl
  · refine (inspect_bare {} left 0 (by decide)).trans ?_
    rw [leftStack]
    rfl
  · refine (inspect_bare {} retried 0 (by decide)).trans ?_
    rw [retriedStack]
    rfl

end FossilVault.Ledger
