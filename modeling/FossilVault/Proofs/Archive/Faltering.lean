import FossilVault.Proofs.Archive.Effect
import FossilVault.Proofs.Archive.Transfer
/-
**Archives that falter.** A call may end with a fault at any time, whether the archive did it before or
not, and no operation goes on calling after that. So whatever fails, an operation has made a first part
of its writes, and only a purge makes more than one.

* `Handler.Falters`, `Handler.watched_falters` — a remote any call of which may fail, as a watched one;
* `Archive.Lawful.tries_compositional` — what is written before a fault is a first part of the writes;
* `Archive.Lawful.step_partly` — so it is with every operation;
* `Catalog.Wrote.partly` — what a first part of the writes of a change leaves.
-/

namespace FossilVault

variable {α β γ ω ω' : Type}

/-- A remote does what another one does to what is seen of its state, except that any call may end with
a fault instead, be it done or not. -/
def Handler.Falters {I : Interface} (h : Handler I ω) (seen : ω' → ω) (h' : Handler I ω') : Prop :=
  ∀ c session world,
    let done := h c session (seen world)
    let got := h' c session world
    (got.1 = done.1 ∧ got.2.1 = done.2.1 ∧ seen got.2.2 = done.2.2) ∨
      (∃ fault, got.1 = .error fault) ∧ (seen got.2.2 = seen world ∨ seen got.2.2 = done.2.2)

/-- A remote falters as itself, that is, not at all. -/
theorem Handler.falters_self {I : Interface} (h : Handler I ω) : h.Falters id h := by
  intro c session world
  exact .inl ⟨rfl, rfl, rfl⟩

/-- A watched remote falters as planned. -/
theorem Handler.watched_falters {I : Interface} {κ : Type} [BEq κ] (sort : I.Call → κ)
    (plan : κ → Nat → Option Fault) (h : Handler I ω) :
    h.Falters Watched.world (h.watched sort plan) := by
  intro c session watched
  cases planned : plan (sort c) ((c :: watched.calls).countP (sort · == sort c)) with
  | none =>
    rw [Handler.watched_of_none planned]
    exact .inl ⟨rfl, rfl, rfl⟩
  | some fault =>
    rw [Handler.watched_of_some planned]
    exact .inr ⟨⟨fault, rfl⟩, .inl rfl⟩

namespace Archive

/-- From a state of the archive a program ends so and writes this, or it ends with a fault and has
written a first part of it. -/
def Tries (archive : Archive α ω) (seen : ω' → ω) (h' : Handler Remote.interface ω')
    (program : Program Remote.interface β) (world : ω) (outcome : Except Fault β)
    (writes : List Write) : Prop :=
  ∀ session world', seen world' = world →
    let ended := program.run h' session world'
    archive.sound (seen ended.2.2) ∧
      (ended.1 = outcome ∧ archive.reaches writes world (seen ended.2.2) ∨
        (∃ fault, ended.1 = .error fault) ∧
          ∃ count, archive.reaches (writes.take count) world (seen ended.2.2))

variable {archive : Archive α ω} {seen : ω' → ω} {h' : Handler Remote.interface ω'} {world : ω}
  {writes : List Write}

/-- A first part of the writes is made in any case. -/
theorem Tries.partly {program : Program Remote.interface β} {outcome : Except Fault β}
    (tries : archive.Tries seen h' program world outcome writes) (session : Session) {world' : ω'}
    (same : seen world' = world) :
    let world'' := seen (program.run h' session world').2.2
    archive.sound world'' ∧ ∃ count, archive.reaches (writes.take count) world world'' := by
  obtain ⟨sound, ⟨_, reached⟩ | ⟨_, reached⟩⟩ := tries session world' same
  · refine ⟨sound, writes.length, ?_⟩
    rwa [List.take_length]
  · exact ⟨sound, reached⟩

namespace Lawful

variable (lawful : archive.Lawful) (falters : archive.handler.Falters seen h')

include lawful falters

theorem tries_ask {c : Remote.Call} {reply : Except Fault (Remote.Reply c)}
    (sound : archive.sound world) (answers : archive.Answers c world reply writes) :
    archive.Tries seen h' (Remote.ask c) world reply writes := by
  rintro session world' rfl
  obtain ⟨session', done, answered, _, soundDone, reached⟩ := answers session
  have cases := falters c session world'
  rw [answered] at cases
  simp only [Remote.run_ask]
  rcases cases with ⟨got, _, at_done⟩ | ⟨failed, untouched | at_done⟩
  · rw [at_done]
    exact ⟨soundDone, .inl ⟨got, reached⟩⟩
  · rw [untouched]
    exact ⟨sound, .inr ⟨failed, 0, lawful.stay _⟩⟩
  · rw [at_done]
    refine ⟨soundDone, .inr ⟨failed, writes.length, ?_⟩⟩
    rwa [List.take_length]

/-- **What is written before a fault is a first part of the writes** of a sequence as of its parts. -/
theorem tries_compositional :
    archive.Compositional fun program world outcome writes =>
      archive.Tries seen h' program world outcome writes where
  pure sound value := by
    rintro session world' rfl
    exact ⟨sound, .inl ⟨rfl, lawful.stay _⟩⟩
  fail sound fault := by
    rintro session world' rfl
    exact ⟨sound, .inl ⟨rfl, lawful.stay _⟩⟩
  note sound level part message := by
    rintro session world' rfl
    exact ⟨sound, .inl ⟨rfl, lawful.stay _⟩⟩
  ask sound answers := lawful.tries_ask falters sound answers
  bind {_ _ first next world value outcome writes writes'} before after := by
    intro session world' same
    obtain ⟨soundMiddle, part⟩ := before session world' same
    simp only [Program.run_bind]
    generalize first.run h' session world' = ended at soundMiddle part
    obtain ⟨verdict, session'', world''⟩ := ended
    rcases part with ⟨rfl, reached⟩ | ⟨⟨fault, rfl⟩, count, reached⟩
    · obtain ⟨sound, ⟨ends, reached'⟩ | ⟨failed, count, reached'⟩⟩ :=
        after _ soundMiddle reached session'' world'' rfl
      · exact ⟨sound, .inl ⟨ends, lawful.trans reached reached'⟩⟩
      · refine ⟨sound, .inr ⟨failed, writes.length + count, ?_⟩⟩
        rw [List.take_length_add_append]
        exact lawful.trans reached reached'
    · refine ⟨soundMiddle, .inr ⟨⟨fault, rfl⟩, min count writes.length, ?_⟩⟩
      rwa [List.take_append_of_le_length (Nat.min_le_right _ _), ← List.take_eq_take_min]

/-- **However it ends, an operation has made a first part of its writes.** -/
theorem step_partly (sound : archive.sound world) (vault : Vault) {operation : Operation}
    (served : archive.serves operation.worker) (session : Session) {world' : ω'}
    (same : seen world' = world) :
    let world'' := seen (vault.step h' (session, world') operation).2.2
    archive.sound world'' ∧ ∃ count,
      archive.reaches
        ((operation.writes archive.version archive.order (archive.names world)).take count) world
        world'' := by
  have told := lawful.tries_compositional falters
  cases operation with
  | upload worker path content =>
    rw [Vault.world_upload]
    exact (told.ask sound (lawful.upload sound served path content _)).partly _ same
  | download worker path destination =>
    rw [Vault.world_download, Program.run_bind]
    -- the stream makes no call, so the archive stays as the download left it
    have opens := lawful.download sound served path
    obtain ⟨reply, answers⟩ : ∃ reply, archive.Answers (.download worker path) world reply [] := by
      unfold Opens at opens
      split at opens
      · obtain ⟨opened, _, _, answers⟩ := opens
        exact ⟨_, answers⟩
      · obtain ⟨fault, _, answers⟩ := opens
        exact ⟨_, answers⟩
    have opened := (told.ask sound answers).partly { session with sink := destination }.readClock.2 same
    simp only at opened ⊢
    split
    · rename_i ran
      rw [ran] at opened
      rw [Vault.run_receive_world]
      exact opened
    · rename_i ran
      rw [ran] at opened
      exact opened
  | move worker source target =>
    change archive.serves worker at served
    simp only [Vault.step, Vault.perform, Program.run_followed]
    exact (told.ends_move lawful sound served source target).partly session same
  | delete worker path =>
    change archive.serves worker at served
    simp only [Vault.step, Vault.perform, Program.run_followed]
    exact (told.ends_delete lawful sound served path).partly session same
  | inspect worker path =>
    change archive.serves worker at served
    simp only [Vault.step, Vault.perform, Program.run_followed]
    exact (told.ends_inspect lawful sound served path).partly session same
  | list worker directory =>
    change archive.serves worker at served
    simp only [Vault.step, Vault.perform, Program.run_followed]
    exact (told.ends_listing lawful sound served directory).partly session same
  | makeDirectory worker directory =>
    simp only [Vault.step, Vault.perform, Program.run_followed]
    exact (told.pure sound ()).partly session same

end Lawful

end Archive

/-! ### What a first part of the writes leaves -/

/-- The stack that a purge leaves that went on for `count` deletions. -/
def purgedFor (count : Nat) (stack : List (Option Bytes)) : List (Option Bytes) :=
  stack.takeWhile Option.isSome ++ (stack.dropWhile Option.isSome).drop count

/-- Only a purge makes more than one write. -/
theorem Change.length_writes_le (version : α → Version) (order : List α → List α) {change : Change}
    (single : change ≠ .purge) (name : String) (stack : List α) :
    (change.writes version order name stack).length ≤ 1 := by
  cases change with
  | purge => exact absurd rfl single
  | push content => exact Nat.le_refl _
  | hide =>
    cases stack with
    | nil => exact Nat.zero_le _
    | cons top rest =>
      rw [writes]
      split <;> simp
  | unhide =>
    cases stack with
    | nil => exact Nat.zero_le _
    | cons top rest =>
      rw [writes]
      split <;> simp
  | pop => cases stack <;> simp [writes]

/-- **A first part of the writes of a change** is the change, or nothing, or it is a purge that was cut
short. -/
theorem Catalog.Wrote.partly {version : α → Version} {order : List α → List α} {name : String}
    {first last : Catalog α} {change : Change} {count : Nat}
    (wrote : first.Wrote version ((change.writes version order name (first.history name)).take count) last)
    (distinct : ((first.history name).map fun stored => (version stored).id).Nodup)
    (straight : change = .purge → order (first.history name) = first.history name) :
    last.contents version = first.contents version ∨
      last.contents version = (first.contents version).turn id id name change ∨
      last.contents version = (first.contents version).replace name
        (purgedFor count ((first.contents version).history name)) := by
  by_cases whole : (change.writes version order name (first.history name)).length ≤ count
  · rw [List.take_of_length_le whole] at wrote
    exact .inr (.inl (wrote.turned distinct straight))
  · by_cases purge : change = .purge
    · subst purge
      refine .inr (.inr ?_)
      let stack := first.history name
      let alive := stack.takeWhile fun stored => (version stored).content.isSome
      let dead := condemned version stack
      have split : stack = alive ++ (dead.take count ++ dead.drop count) := by
        rw [List.take_append_drop]
        exact List.takeWhile_append_dropWhile.symm
      have written : (Change.purge.writes version order name stack).take count =
          ((dead.take count).map fun stored => (version stored).id).map (.remove name) := by
        rw [Change.writes, straight rfl, ← List.map_take, List.map_map]
        rfl
      have left : spared version ((dead.take count).map fun stored => (version stored).id) stack =
          alive ++ dead.drop count := by
        rw [show first.history name = stack from rfl, split] at distinct
        rw [split]
        exact spared_part version distinct
      rw [written] at wrote
      rw [wrote.removals, left]
      apply ext_history
      intro other
      rw [history_contents, history_replace, history_replace]
      by_cases same : other = name
      · rw [if_pos same, if_pos same, history_contents, purgedFor, List.takeWhile_map,
          List.dropWhile_map, List.map_append, List.map_drop]
        rfl
      · rw [if_neg same, if_neg same, history_contents]
    · have short := Change.length_writes_le version order purge name (first.history name)
      have none : count = 0 := by omega
      rw [none, List.take_zero] at wrote
      exact .inl (congrArg (contents version) wrote.idle)

end FossilVault
