import FossilVault.Proofs.Stack
/-
**What is called.** Which calls a program may make, whatever it is answered, and when it deletes no more
than it was told of by its own listing. Both are told of a program by its parts.

* `Program.Only`, `Program.Only.bind` — a program that makes no other calls than the allowed ones;
* `Program.Heeds`, `Vault.heeds_perform` — an operation that deletes lists the name first, and deletes
  nothing that the listing did not show;
* `Operation.Makes`, `Vault.only_perform` — the calls of an operation.
-/

namespace FossilVault

variable {I : Interface} {α β : Type}

/-! ### The calls of a program -/

namespace Program

theorem bind_assoc {γ : Type} (program : Program I α) (next : α → Program I β) (last : β → Program I γ) :
    program >>= next >>= last = program >>= fun value => next value >>= last := by
  change (program.bind next).bind last = program.bind fun value => (next value).bind last
  induction program with
  | done value => rfl
  | fail fault => rfl
  | look rest ih =>
    simp only [bind]
    congr 1
    funext session
    exact ih session
  | keep session rest ih =>
    simp only [bind]
    congr 1
  | call c rest ih =>
    simp only [bind]
    congr 1
    funext answer
    exact ih answer

/-- What a timed program does after its body. -/
def reported (name : String) (worker : Int) (path : String) (start : Instant) (outcome : Except Fault α) :
    Program I α :=
  if isInterrupted outcome then ofExcept outcome
  else
    clock >>= fun finish => ofExcept (start.elapsed finish) >>= fun elapsed =>
      let line := report name path worker elapsed outcome
      note line.level line.part line.message >>= fun _ => ofExcept outcome

theorem timed_eq (name : String) (worker : Int) (path : String) (body : Program I α) :
    body.timed name worker path =
      clock >>= fun start => body.attempt >>= fun outcome => reported name worker path start outcome := rfl

/-- What neither a look at the clock nor a note changes is after a timed program as after its body. -/
theorem observed_timed {γ ω : Type} (observe : Session → γ)
    (looks : ∀ session : Session, observe session.readClock.2 = observe session)
    (notes : ∀ level part message session,
      observe (Session.note level part message session) = observe session)
    (h : Handler I ω) (name : String) (worker : Int) (path : String) (body : Program I α)
    (session : Session) (world : ω) :
    observe ((body.timed name worker path).run h session world).2.1 =
      observe (body.run h session.readClock.2 world).2.1 := by
  rw [timed, clock]
  simp only [run_bind, run_within, run_attempt]
  split
  · rw [run_ofExcept]
  · simp only [run_bind, run_within, run_ofExcept]
    have looked := looks (body.run h session.readClock.2 world).2.1
    cases session.readClock.1.elapsed (body.run h session.readClock.2 world).2.1.readClock.1 with
    | error fault => exact looked
    | ok elapsed =>
      simp only [run_note]
      exact (notes _ _ _ _).trans looked

/-- The program makes no other calls than the allowed ones, whatever it is answered. -/
inductive Only (allowed : I.Call → Prop) : Program I α → Prop
  | done (value : α) : Only allowed (.done value)
  | fail (fault : Fault) : Only allowed (.fail fault)
  | look {next : Session → Program I α} (rest : ∀ session, Only allowed (next session)) :
      Only allowed (.look next)
  | keep (session : Session) {next : Program I α} (rest : Only allowed next) :
      Only allowed (.keep session next)
  | call {c : I.Call} {next : Except Fault (I.Reply c) → Program I α} (permitted : allowed c)
      (rest : ∀ answer, Only allowed (next answer)) : Only allowed (.call c next)

/-- Any program, as long as every call is allowed. -/
theorem only_any (program : Program I α) : program.Only fun _ => True := by
  induction program with
  | done value => exact .done value
  | fail fault => exact .fail fault
  | look _ ih => exact .look ih
  | keep session _ ih => exact .keep session ih
  | call c _ ih => exact .call trivial ih

namespace Only

variable {allowed allowed' : I.Call → Prop} {program : Program I α}

theorem mono (only : program.Only allowed) (wider : ∀ c, allowed c → allowed' c) :
    program.Only allowed' := by
  induction only with
  | done value => exact .done value
  | fail fault => exact .fail fault
  | look _ ih => exact .look ih
  | keep session _ ih => exact .keep session ih
  | call permitted _ ih => exact .call (wider _ permitted) ih

theorem and (first : program.Only allowed) (second : program.Only allowed') :
    program.Only fun c => allowed c ∧ allowed' c := by
  induction first with
  | done value => exact .done value
  | fail fault => exact .fail fault
  | look _ ih =>
    cases second with
    | look rest => exact .look fun session => ih session (rest session)
  | keep session _ ih =>
    cases second with
    | keep _ rest => exact .keep session (ih rest)
  | call permitted _ ih =>
    cases second with
    | call permitted' rest => exact .call ⟨permitted, permitted'⟩ fun answer => ih answer (rest answer)

/-- **What every allowed call keeps, the program keeps** that makes no others. -/
theorem run_keeps {ω : Type} (only : program.Only allowed) (h : Handler I ω) (kept : ω → Prop)
    (keeps : ∀ c session world, allowed c → kept world → kept (h c session world).2.2) (session : Session)
    {world : ω} (before : kept world) : kept (program.run h session world).2.2 := by
  induction only generalizing session world with
  | done value => exact before
  | fail fault => exact before
  | look _ ih => exact ih session session before
  | keep kept _ ih => exact ih kept before
  | @call c next permitted _ ih => exact ih _ _ (keeps c session world permitted before)

/-- Remotes that do the same on every allowed call are alike to a program that makes no others. -/
theorem run_congr {ω : Type} (only : program.Only allowed) {h h' : Handler I ω}
    (same : ∀ c session world, allowed c → h c session world = h' c session world) (session : Session)
    (world : ω) : program.run h session world = program.run h' session world := by
  induction only generalizing session world with
  | done value => rfl
  | fail fault => rfl
  | look _ ih => exact ih session session world
  | keep kept _ ih => exact ih kept world
  | @call c next permitted _ ih =>
    rw [run, run, same c session world permitted]
    exact ih _ _ _

/-- A sequence makes the calls of its parts. -/
theorem bind {next : α → Program I β} (first : program.Only allowed)
    (after : ∀ value, (next value).Only allowed) : (program >>= next).Only allowed := by
  induction first with
  | done value => exact after value
  | fail fault => exact .fail fault
  | look _ ih => exact .look ih
  | keep session _ ih => exact .keep session ih
  | call permitted _ ih => exact .call permitted ih

theorem attempt (only : program.Only allowed) : program.attempt.Only allowed := by
  induction only with
  | done value => exact .done _
  | fail fault => exact .done _
  | look _ ih => exact .look ih
  | keep session _ ih => exact .keep session ih
  | call permitted _ ih => exact .call permitted ih

theorem ofExcept (outcome : Except Fault α) : (Program.ofExcept outcome : Program I α).Only allowed := by
  cases outcome with
  | ok value => exact .done value
  | error fault => exact .fail fault

theorem ask {c : I.Call} (permitted : allowed c) : (Program.ask c).Only allowed :=
  .call permitted fun _ => ofExcept _

theorem within (step : Session → Except Fault α × Session) :
    (Program.within step : Program I α).Only allowed :=
  .look fun _ => .keep _ (ofExcept _)

theorem modify (step : Session → Session) : (Program.modify step : Program I Unit).Only allowed :=
  .look fun _ => .keep _ (.done ())

theorem note (level : Log.Level) (part : Log.Part) (message : String) :
    (Program.note level part message : Program I Unit).Only allowed :=
  modify _

theorem reported (name : String) (worker : Int) (path : String) (start : Instant)
    (outcome : Except Fault α) :
    (Program.reported name worker path start outcome : Program I α).Only allowed := by
  unfold Program.reported
  split
  · exact ofExcept _
  · refine (within _).bind fun finish => (ofExcept _).bind fun elapsed => ?_
    exact (note _ _ _).bind fun _ => ofExcept _

theorem timed (name : String) (worker : Int) (path : String) (body : program.Only allowed) :
    (program.timed name worker path).Only allowed :=
  (within _).bind fun start => body.attempt.bind fun outcome => reported name worker path start outcome

end Only

/-- The program lists a name and then deletes nothing but what was listed. -/
def Heeds (worker : Int) (name : String) (program : Program Remote.interface α) : Prop :=
  ∃ next : List Entry → Program Remote.interface α,
    program = Remote.ask (.list worker name true true) >>= next ∧
      ∀ entries, (next entries).Only fun c =>
        ∃ entry ∈ entries, c = Remote.Call.delete worker name entry.id

namespace Heeds

variable {worker : Int} {name : String} {program : Program Remote.interface α}

/-- It stays so when something follows that calls nothing. -/
theorem bind {next : α → Program Remote.interface β} (heeds : program.Heeds worker name)
    (quiet : ∀ value, (next value).Only fun _ => False) : (program >>= next).Heeds worker name := by
  obtain ⟨rest, rfl, only⟩ := heeds
  refine ⟨fun entries => rest entries >>= next, bind_assoc _ _ _, ?_⟩
  intro entries
  exact (only entries).bind fun value => (quiet value).mono fun _ => False.elim

theorem only {allowed : Remote.Call → Prop} (heeds : program.Heeds worker name)
    (lists : allowed (.list worker name true true)) (deletes : ∀ id, allowed (.delete worker name id)) :
    program.Only allowed := by
  obtain ⟨rest, rfl, only⟩ := heeds
  refine (Only.ask lists).bind fun entries => (only entries).mono ?_
  rintro _ ⟨entry, _, rfl⟩
  exact deletes entry.id

end Heeds

end Program

/-! ### The calls of an operation -/

/-- The state of a name is that of a listed version. -/
theorem mem_of_stateOf {name : String} {entries : List Entry} {state : State}
    (top : stateOf name entries = some state) : ∃ entry ∈ entries, entry.state = state := by
  cases entries with
  | nil => cases top
  | cons entry rest =>
    refine ⟨entry, .head _, ?_⟩
    simp only [stateOf] at top
    split at top
    · exact Option.some.inj top
    · cases top

/-- An operation may make this call. -/
inductive Operation.Makes : Operation → Remote.Call → Prop
  | upload (worker : Int) (path : String) (content : Bytes) (rate : Int) :
      Makes (.upload worker path content) (.upload worker path content rate)
  | download (worker : Int) (path : String) (destination : Sink) :
      Makes (.download worker path destination) (.download worker path)
  | consider {worker : Int} {source target name : String} {change : Change}
      (made : (Operation.move worker source target).change = some (name, change)) :
      Makes (.move worker source target) (.list worker name true true)
  | hide {worker : Int} {source target name : String}
      (made : (Operation.move worker source target).change = some (name, .hide)) :
      Makes (.move worker source target) (.hide worker name)
  | unhide {worker : Int} {source target name : String}
      (made : (Operation.move worker source target).change = some (name, .unhide)) (id : String) :
      Makes (.move worker source target) (.delete worker name id)
  | examine (worker : Int) (path : String) :
      Makes (.delete worker path) (.list worker (Fossil.parse path).name true true)
  | delete (worker : Int) (path id : String) :
      Makes (.delete worker path) (.delete worker (Fossil.parse path).name id)
  | inspect (worker : Int) (path : String) :
      Makes (.inspect worker path)
        (.list worker (Fossil.parse path).name true (Fossil.parse path).fossil)
  | list (worker : Int) (directory stem : String) (withHidden : Bool) :
      Makes (.list worker directory) (.list worker stem false withHidden)

namespace Vault

variable {allowed : Remote.Call → Prop}

theorem only_deleteAll (worker : Int) (name : String) (entries : List Entry)
    (permitted : ∀ entry ∈ entries, allowed (.delete worker name entry.id)) :
    (deleteAll worker name entries).Only allowed := by
  induction entries with
  | nil => exact .done ()
  | cons entry rest ih =>
    refine (Program.Only.ask (permitted entry (.head _))).bind fun _ => ih ?_
    intro later among
    exact permitted later (.tail _ among)

theorem only_hide (worker : Int) (name : String) (lists : allowed (.list worker name true true))
    (hides : allowed (.hide worker name)) : (hide worker name).Only allowed := by
  refine (Program.Only.ask lists).bind fun entries => ?_
  split
  · exact (Program.Only.ask hides).bind fun _ => .note _ _ _
  · exact .note _ _ _

theorem heeds_resurrect (worker : Int) (name : String) :
    (resurrect worker name).Heeds worker name := by
  refine ⟨_, rfl, fun entries => ?_⟩
  split
  · rename_i marker size top
    obtain ⟨entry, among, state⟩ := mem_of_stateOf top
    have same : entry.id = marker := by
      rw [← Entry.state_id, state]
      rfl
    exact (Program.Only.ask ⟨entry, among, by rw [same]⟩).bind fun _ => .note _ _ _
  · exact .note _ _ _

theorem heeds_deleteNewest (worker : Int) (name : String) :
    (deleteNewest worker name).Heeds worker name := by
  refine ⟨_, rfl, fun entries => ?_⟩
  cases entries with
  | nil => exact .done ()
  | cons newest rest =>
    exact (Program.Only.ask ⟨newest, .head _, rfl⟩).bind fun _ => .note _ _ _

theorem heeds_purge (worker : Int) (name : String) : (purge worker name).Heeds worker name := by
  refine ⟨_, rfl, fun entries => ?_⟩
  refine (only_deleteAll worker name _ ?_).bind fun _ => ?_
  · intro entry among
    exact ⟨entry, (mem_doomed among).2, rfl⟩
  · split
    · exact .note _ _ _
    · exact .done ()

/-- A purge lists the name and then deletes what is doomed, without another call. -/
theorem perform_purge (vault : Vault) (worker : Int) (name : String) :
    ∃ finish : List Entry → Unit → Program Remote.interface Answer,
      (∀ entries value, (finish entries value).Only fun _ => False) ∧
        vault.perform (.delete worker (Fossil.fossilOf name)) =
          Remote.ask (.list worker name true true) >>= fun entries =>
            deleteAll worker name (doomed name entries) >>= finish entries := by
  apply Exists.intro
  constructor
  case right =>
    rw [perform, delete, Fossil.parse_fossilOf]
    simp only [if_true, purge, Program.bind_assoc]
    rfl
  case left =>
    intro entries value
    refine Program.Only.bind ?_ fun _ => .done _
    split
    · exact .note _ _ _
    · exact .done ()

theorem heeds_delete (worker : Int) (path : String) :
    (delete worker path).Heeds worker (Fossil.parse path).name := by
  unfold delete
  simp only
  split
  · exact heeds_purge worker _
  · exact heeds_deleteNewest worker _

/-- Receiving calls nothing. -/
theorem only_receive (vault : Vault) (worker : Int) (source : Source) :
    (vault.receive worker source).Only allowed := by
  refine (Program.Only.modify _).bind fun _ => ((Program.Only.within _).attempt).bind fun outcome => ?_
  exact (Program.Only.modify _).bind fun _ => .ofExcept _

/-- A move makes the calls of its change, and none if it has none. -/
theorem only_move (worker : Int) (source target : String) :
    (move worker source target).Only (Operation.Makes (.move worker source target)) := by
  by_cases back : source = Fossil.fossilOf target
  · subst back
    have made := Operation.change_unhide worker target
    rw [move_back]
    exact (heeds_resurrect worker target).only (.consider made) (.unhide made)
  · by_cases there : target = Fossil.fossilOf source ∧ Fossil.isFossil source = false
    · obtain ⟨rfl, bare⟩ := there
      have made := Operation.change_hide worker bare
      rw [move_there worker bare]
      exact only_hide worker source (.consider made) (.hide made)
    · rw [move_refused worker back there]
      exact (Program.Only.note _ _ _).bind fun _ => .fail _

/-- **An operation makes its calls and no others.** -/
theorem only_perform (vault : Vault) (operation : Operation) :
    (vault.perform operation).Only operation.Makes := by
  cases operation with
  | upload worker path content =>
    have sends : (vault.upload worker path content).Only (Operation.Makes (.upload worker path content)) :=
      .timed _ _ _ (.ask (.upload worker path content _))
    exact sends.bind fun _ => .done _
  | download worker path destination =>
    have fetches : (vault.download worker path).Only
        (Operation.Makes (.download worker path destination)) := by
      refine .timed _ _ _ ((Program.Only.ask (.download worker path destination)).bind fun opened => ?_)
      exact vault.only_receive worker _
    exact (Program.Only.modify _).bind fun _ => fetches.bind fun _ => .done _
  | move worker source target => exact (only_move worker source target).bind fun _ => .done _
  | delete worker path =>
    have deletes : (delete worker path).Only (Operation.Makes (.delete worker path)) :=
      (heeds_delete worker path).only (.examine worker path) (.delete worker path)
    exact deletes.bind fun _ => .done _
  | inspect worker path =>
    have looks : (inspect worker path).Only (Operation.Makes (.inspect worker path)) :=
      (Program.Only.ask (.inspect worker path)).bind fun _ => .done _
    exact looks.bind fun _ => .done _
  | list worker directory =>
    have lists : (list worker directory).Only (Operation.Makes (.list worker directory)) := by
      unfold list
      simp only
      split
      · exact (Program.Only.ask (.list worker directory _ _)).bind fun _ => .done _
      · split <;> exact (Program.Only.ask (.list worker directory _ _)).bind fun _ => .done _
    exact lists.bind fun _ => .done _
  | makeDirectory worker directory => exact .done _

/-- **An operation that deletes lists the name first**, and deletes nothing that it was not told of. -/
theorem heeds_perform (vault : Vault) {operation : Operation} {name : String} {change : Change}
    (made : operation.change = some (name, change))
    (deletes : change = .unhide ∨ change = .pop ∨ change = .purge) :
    (vault.perform operation).Heeds operation.worker name := by
  cases operation with
  | move worker source target =>
    by_cases back : source = Fossil.fossilOf target
    · subst back
      rw [Operation.change_unhide] at made
      cases made
      rw [perform, move_back]
      exact (heeds_resurrect worker _).bind fun _ => .done _
    · simp only [Operation.change, if_neg back] at made
      split at made
      · cases made
        simp at deletes
      · cases made
  | delete worker path =>
    cases made
    exact (heeds_delete worker path).bind fun _ => .done _
  | upload worker path content =>
    cases made
    simp at deletes
  | download | inspect | list | makeDirectory => cases made

end Vault

end FossilVault
