import FossilVault.Proofs.Archive.Operation
/-
**Effects.** What the writes of a change make of a catalog. A change that grows a stack is one write
on top of it; any other takes away versions by their identifiers, which hits the ones that were
meant because identifiers are distinct.

* `Change.writes_grown`, `Change.writes_still` — a change that grows a stack writes on top of it,
  one that leaves the stack alone writes nothing;
* `Catalog.Wrote.removals` — removals leave the versions whose identifiers were not named;
* `Catalog.Wrote.turned` — after its writes a change is made.
-/

namespace FossilVault

variable {α : Type} {version : α → Version} {order : List α → List α} {name : String}

/-! ### Removing by identifiers -/

/-- The versions of a list that have none of these identifiers. -/
def spared (version : α → Version) (ids : List String) (stack : List α) : List α :=
  stack.filter fun stored => !ids.contains (version stored).id

theorem spared_eq_self {ids : List String} {stack : List α}
    (apart : ∀ stored ∈ stack, (version stored).id ∉ ids) : spared version ids stack = stack :=
  List.filter_eq_self.mpr fun stored among => by simpa using apart stored among

theorem spared_eq_nil {ids : List String} {stack : List α}
    (named : ∀ stored ∈ stack, (version stored).id ∈ ids) : spared version ids stack = [] :=
  List.filter_eq_nil_iff.mpr fun stored among => by simpa using named stored among

/-- Naming the identifiers of one part of a stack spares the parts before and behind it. -/
theorem spared_part (version : α → Version) {front part back : List α}
    (distinct : ((front ++ (part ++ back)).map fun stored => (version stored).id).Nodup) :
    spared version (part.map fun stored => (version stored).id) (front ++ (part ++ back)) =
      front ++ back := by
  rw [List.map_append, List.map_append, List.nodup_append, List.nodup_append] at distinct
  obtain ⟨_, ⟨_, _, behind⟩, before⟩ := distinct
  have gone : spared version (part.map fun stored => (version stored).id) part = [] :=
    spared_eq_nil fun stored among => List.mem_map_of_mem among
  have kept : spared version (part.map fun stored => (version stored).id) front = front :=
    spared_eq_self fun stored among named =>
      before _ (List.mem_map_of_mem among) _ (List.mem_append_left _ named) rfl
  have kept' : spared version (part.map fun stored => (version stored).id) back = back :=
    spared_eq_self fun stored among named => behind _ named _ (List.mem_map_of_mem among) rfl
  unfold spared at gone kept kept' ⊢
  rw [List.filter_append, List.filter_append, gone, kept, kept', List.nil_append]

theorem spared_front (version : α → Version) {front back : List α}
    (distinct : ((front ++ back).map fun stored => (version stored).id).Nodup) :
    spared version (back.map fun stored => (version stored).id) (front ++ back) = front := by
  have whole := List.append_nil back
  rw [← whole] at distinct
  have part := spared_part version distinct
  rwa [whole, List.append_nil] at part

theorem spared_top (version : α → Version) {top : α} {rest : List α}
    (distinct : ((top :: rest).map fun stored => (version stored).id).Nodup) :
    spared version [(version top).id] (top :: rest) = rest := by
  have part : spared version ([top].map fun stored => (version stored).id) ([] ++ ([top] ++ rest)) =
      [] ++ rest := spared_part version distinct
  exact part

/-! ### The shapes of writes -/

namespace Change

/-- A change that grows a stack is one write on top of it. -/
theorem writes_grown {change : Change} {stack : List α}
    (grown : change.grows (fun stored => (version stored).content) stack = true) :
    change.writes version order name stack = [.push name change.gains] := by
  cases change with
  | push content => rfl
  | hide =>
    cases stack with
    | nil => cases grown
    | cons top rest => exact if_pos grown
  | unhide | pop | purge => cases grown

/-- A change that does not grow a stack takes versions away by their identifiers. -/
theorem writes_still (name : String) {change : Change} {stack : List α}
    (still : change.grows (fun stored => (version stored).content) stack = false)
    (distinct : (stack.map fun stored => (version stored).id).Nodup)
    (straight : change = .purge → order stack = stack) :
    ∃ ids : List String, change.writes version order name stack = ids.map (.remove name) ∧
      ∀ new, change.on (fun stored => (version stored).content) new stack =
        spared version ids stack := by
  have nothing : spared version [] stack = stack := spared_eq_self fun _ _ => List.not_mem_nil
  cases change with
  | push content => cases still
  | hide =>
    refine ⟨[], ?_, ?_⟩
    · cases stack with
      | nil => rfl
      | cons top rest => exact if_neg (Bool.eq_false_iff.mp still)
    · intro new
      rw [nothing]
      cases stack with
      | nil => rfl
      | cons top rest => exact if_neg (Bool.eq_false_iff.mp still)
  | unhide =>
    cases stack with
    | nil => exact ⟨[], rfl, fun new => rfl⟩
    | cons top rest =>
      by_cases active : (version top).content.isSome = true
      · refine ⟨[], if_pos active, ?_⟩
        intro new
        rw [nothing]
        exact if_pos active
      · refine ⟨[(version top).id], if_neg active, ?_⟩
        intro new
        rw [spared_top version distinct]
        exact if_neg active
  | pop =>
    cases stack with
    | nil => exact ⟨[], rfl, fun new => rfl⟩
    | cons top rest =>
      refine ⟨[(version top).id], rfl, ?_⟩
      intro new
      rw [spared_top version distinct]
      rfl
  | purge =>
    have split := List.takeWhile_append_dropWhile
      (p := fun stored => (version stored).content.isSome) (l := stack)
    refine ⟨(condemned version stack).map fun dead => (version dead).id, ?_, ?_⟩
    · rw [writes, straight rfl, List.map_map]
      rfl
    · intro new
      rw [← split] at distinct
      have spares := spared_front version distinct
      rw [split] at spares
      exact spares.symm

end Change

/-! ### What writes leave -/

namespace Catalog.Wrote

variable {first last : Catalog α}

/-- Removals spare the versions whose identifiers were not named. -/
theorem removals {ids : List String} (wrote : first.Wrote version (ids.map (.remove name)) last) :
    last = first.replace name (spared version ids (first.history name)) := by
  apply ext_history
  intro other
  rw [history_replace]
  induction ids generalizing first with
  | nil =>
    rw [wrote.idle, spared_eq_self fun _ _ => List.not_mem_nil]
    by_cases same : other = name
    · rw [if_pos same, same]
    · rw [if_neg same]
  | cons id rest ih =>
    cases wrote with
    | remove after =>
      rw [ih after, history_keep, history_keep, if_pos rfl]
      by_cases same : other = name
      · simp only [if_pos same, spared, List.filter_filter]
        apply List.filter_congr
        intro stored _
        by_cases named : (version stored).id = id <;> simp [named]
      · simp only [if_neg same]

theorem removed {id : String} (wrote : first.Wrote version [.remove name id] last) :
    last = first.replace name (spared version [id] (first.history name)) := by
  have one : first.Wrote version ([id].map (.remove name)) last := wrote
  exact one.removals

/-- A push makes a version that holds what was pushed. -/
theorem pushed {content : Option Bytes} (wrote : first.Wrote version [.push name content] last) :
    ∃ stored, (version stored).content = content ∧ last = first.push name stored := by
  cases wrote with
  | push holds after => exact ⟨_, holds, after.idle⟩

/-- **After its writes a change is made.** -/
theorem turned {change : Change}
    (wrote : first.Wrote version (change.writes version order name (first.history name)) last)
    (distinct : ((first.history name).map fun stored => (version stored).id).Nodup)
    (straight : change = .purge → order (first.history name) = first.history name) :
    last.contents version = (first.contents version).turn id id name change := by
  apply ext_history
  intro other
  rw [history_contents, history_turn, history_contents, history_contents]
  have grows : change.grows id ((first.history name).map fun stored => (version stored).content) =
      change.grows (fun stored => (version stored).content) (first.history name) :=
    Change.grows_map (fun _ => rfl) change _
  cases grown : change.grows (fun stored => (version stored).content) (first.history name) with
  | true =>
    rw [Change.writes_grown grown] at wrote
    obtain ⟨stored, holds, rfl⟩ := wrote.pushed
    rw [history_push, Change.on_grown (grows.trans grown)]
    by_cases same : other = name
    · rw [if_pos same, if_pos same, List.map_cons, holds]
      rfl
    · rw [if_neg same, if_neg same]
  | false =>
    obtain ⟨ids, written, left⟩ := Change.writes_still name grown distinct straight
    rw [written] at wrote
    rw [wrote.removals, history_replace]
    by_cases same : other = name
    · rw [if_pos same, if_pos same]
      cases stack : first.history name with
      | nil =>
        rw [stack] at grown grows
        exact (Change.on_void (grows.trans grown) id).symm
      | cons top rest =>
        rw [stack] at grown grows left
        rw [← left fun _ => top]
        exact (Change.map_on (fun _ => rfl) change (top :: rest)).trans
          (Change.on_still (grows.trans grown) _ id)
    · rw [if_neg same, if_neg same]

end Catalog.Wrote

end FossilVault
