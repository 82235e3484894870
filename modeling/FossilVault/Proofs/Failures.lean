import FossilVault.Proofs.Archive.Crews
import FossilVault.Proofs.Archive.Transfer
/-
**Failing calls.** Any call on a remote may end with a fault instead of being done. No operation makes up
for that: it makes no further call and ends with this very fault, through the report of a transfer too.
So what a failing call leaves is what was done before it, and of everything but a purge that is nothing,
because a write is the last call that it makes.

* `Handler.failing` — a remote on which one call fails;
* `Program.Relays`, `Program.Relays.run_failing` — a program that ends with the fault of its call;
* `Program.ReadsFirst`, `Program.ReadsFirst.run_failing` — a program that only reads before a call;
* `Vault.relays_perform`, `Vault.reads_perform` — so it is with every operation;
* `Program.FailsAs`, `Vault.failsAs_move` — a move that means a change has no fault of its own.
-/

namespace FossilVault

variable {I : Interface} {ω α β : Type}

/-! ### A remote on which one call fails -/

namespace Remote

/-- The calls of a verb. -/
def countOf (verb : Verb) (calls : List Call) : Nat :=
  calls.countP (·.verb == verb)

/-- Lets the call of a verb with this number fail, and nothing else. -/
def failingAt (verb : Verb) (number : Nat) (fault : Fault) (sort : Verb) (count : Nat) : Option Fault :=
  if sort = verb ∧ count = number then some fault else none

theorem countOf_cons (verb : Verb) (c : Call) (calls : List Call) :
    countOf verb (c :: calls) = countOf verb calls + if c.verb = verb then 1 else 0 := by
  rw [countOf, List.countP_cons]
  simp [countOf]

/-- A call that does not fail leaves the failing one to come. -/
theorem countOf_lt_of_passing {verb : Verb} {number : Nat} {c : Call} {calls : List Call}
    (early : countOf verb calls < number)
    (passes : ¬ (c.verb = verb ∧ countOf verb calls + 1 = number)) :
    countOf verb (c :: calls) < number := by
  rw [countOf_cons]
  by_cases same : c.verb = verb
  · have other : countOf verb calls + 1 ≠ number := fun reached => passes ⟨same, reached⟩
    rw [if_pos same]
    omega
  · rwa [if_neg same]

end Remote

/-- The remote, when the call of a verb with this number fails instead of being done. -/
def Handler.failing (h : Handler Remote.interface ω) (verb : Remote.Verb) (number : Nat) (fault : Fault) :
    Handler Remote.interface (Watched Remote.interface ω) :=
  h.watched Remote.Call.verb (Remote.failingAt verb number fault)

section Failing

variable {h : Handler Remote.interface ω} {verb : Remote.Verb} {number : Nat} {fault : Fault}
  {c : Remote.Call} {session : Session} {watched : Watched Remote.interface ω}

theorem Handler.failing_fails (same : c.verb = verb)
    (reached : Remote.countOf verb watched.calls + 1 = number) :
    h.failing verb number fault c session watched =
      (.error fault, session, { watched with calls := c :: watched.calls }) := by
  subst same
  apply Handler.watched_of_some
  refine if_pos ⟨rfl, Eq.trans ?_ reached⟩
  exact List.countP_cons_of_pos (beq_self_eq_true c.verb)

theorem Handler.failing_passes
    (other : ¬ (c.verb = verb ∧ Remote.countOf verb watched.calls + 1 = number)) :
    h.failing verb number fault c session watched = h.recorded c session watched := by
  rw [Handler.recorded_eq]
  apply Handler.watched_of_none
  refine if_neg fun fails => other ?_
  obtain ⟨rfl, reached⟩ := fails
  refine ⟨rfl, Eq.trans ?_ reached⟩
  exact (List.countP_cons_of_pos (p := (Remote.Call.verb · == c.verb)) (beq_self_eq_true c.verb)).symm

end Failing

namespace Program

/-! ### Programs that make no call -/

theorem Only.run_quiet {program : Program I α} (quiet : program.Only fun _ => False) (h : Handler I ω)
    (session : Session) (world : ω) : (program.run h session world).2.2 = world :=
  quiet.run_keeps h (· = world) (fun _ _ _ none => none.elim) session rfl

/-- A program that makes no call of a verb makes none more. -/
theorem Only.countOf_run {program : Program Remote.interface α} {verb : Remote.Verb}
    (only : program.Only fun c : Remote.Call => c.verb ≠ verb) (h : Handler Remote.interface ω)
    (session : Session) (watched : Watched Remote.interface ω) :
    Remote.countOf verb (program.run h.recorded session watched).2.2.calls =
      Remote.countOf verb watched.calls := by
  induction only generalizing session watched with
  | done value => rfl
  | fail fault => rfl
  | look _ ih => exact ih session session watched
  | keep kept _ ih => exact ih kept watched
  | @call c next other _ ih =>
    rw [run, Handler.recorded_eq]
    refine (ih _ _ _).trans ?_
    rw [Remote.countOf_cons, if_neg other]
    rfl

/-! ### Programs that relay the faults of their calls -/

/-- A program that makes no call after one that failed and ends with that call's fault, as long as it
starts from a session that is ready. -/
inductive Relays : (Session → Prop) → Program I α → Prop
  | done {ready : Session → Prop} (value : α) : Relays ready (.done value)
  | fail {ready : Session → Prop} (fault : Fault) : Relays ready (.fail fault)
  | look {ready : Session → Prop} {next : Session → Program I α}
      (rest : ∀ session, ready session → Relays ready (next session)) : Relays ready (.look next)
  | keep {ready : Session → Prop} (ready' : Session → Prop) {session : Session} {next : Program I α}
      (kept : ready' session) (rest : Relays ready' next) : Relays ready (.keep session next)
  | call {ready : Session → Prop} {c : I.Call} {next : Except Fault (I.Reply c) → Program I α}
      (stops : ∀ fault, (next (.error fault)).Only fun _ => False)
      (raises : ∀ fault {ω : Type} (h : Handler I ω) session world, ready session →
        ((next (.error fault)).run h session world).1 = .error fault)
      (rest : ∀ reply, Relays (fun _ => True) (next (.ok reply))) : Relays ready (.call c next)

namespace Relays

variable {ready : Session → Prop} {program : Program I α}

/-- A program that makes no call relays every fault of its calls. -/
theorem of_quiet (quiet : program.Only fun _ => False) : program.Relays ready := by
  induction quiet generalizing ready with
  | done value => exact .done value
  | fail fault => exact .fail fault
  | look _ ih => exact .look fun session _ => ih session
  | keep kept _ ih => exact .keep (fun _ => True) trivial ih
  | call none => exact none.elim

/-- It stays so when something follows that calls nothing. -/
theorem followed {next : α → Program I β} (relays : program.Relays ready)
    (quiet : ∀ value, (next value).Only fun _ => False) : (program >>= next).Relays ready := by
  induction relays with
  | done value => exact .of_quiet (quiet value)
  | fail fault => exact .fail fault
  | look _ ih => exact .look ih
  | keep ready' kept _ ih => exact .keep ready' kept ih
  | call stops raises _ ih =>
    refine .call (fun fault => (stops fault).bind quiet) ?_ ih
    intro fault _ h session world at_start
    have raised := raises fault h session world at_start
    show ((_ >>= next).run h session world).1 = _
    rw [run_bind]
    generalize run h _ session world = ended at raised
    obtain ⟨outcome, session', world'⟩ := ended
    cases raised
    rfl

/-- A call whose fault ends everything comes first. -/
theorem ask_bind {c : I.Call} {next : I.Reply c → Program I α}
    (rest : ∀ reply, (next reply).Relays fun _ => True) : (Program.ask c >>= next).Relays ready :=
  .call (fun fault => .fail fault) (fun _ _ _ _ _ _ => rfl) rest

end Relays

/-- **A program that relays faults ends with that of the call that fails**, if it comes to this call. -/
theorem Relays.run_failing {program : Program Remote.interface α} {ready : Session → Prop}
    (relays : program.Relays ready) (h : Handler Remote.interface ω) {verb : Remote.Verb} {number : Nat}
    (fault : Fault) {session : Session} (at_start : ready session)
    {watched : Watched Remote.interface ω} (early : Remote.countOf verb watched.calls < number)
    (made : number ≤
      Remote.countOf verb (program.run h.recorded session watched).2.2.calls) :
    (program.run (h.failing verb number fault) session watched).1 = .error fault := by
  induction relays generalizing session watched with
  | done value => exact absurd made (Nat.not_le.mpr early)
  | fail fault => exact absurd made (Nat.not_le.mpr early)
  | look _ ih => exact ih session at_start at_start early made
  | keep _ kept _ ih => exact ih kept early made
  | @call _ c next stops raises _ ih =>
    by_cases fails : c.verb = verb ∧ Remote.countOf verb watched.calls + 1 = number
    · rw [run, Handler.failing_fails fails.1 fails.2]
      exact raises fault _ _ _ at_start
    · have early' := Remote.countOf_lt_of_passing early fails
      rw [run, Handler.recorded_eq] at made
      rw [run, Handler.failing_passes fails, Handler.recorded_eq]
      cases answered : (h c session watched.world).1 with
      | ok reply =>
        simp only [answered] at made ⊢
        exact ih reply trivial early' made
      | error other =>
        simp only [answered] at made
        rw [(stops other).run_quiet] at made
        exact absurd made (Nat.not_le.mpr early')

/-! ### Programs that read first -/

/-- A program that makes nothing but reading calls before a call of this verb, and none of this verb after
its first write. -/
inductive ReadsFirst (verb : Remote.Verb) : Program Remote.interface α → Prop
  | never {program : Program Remote.interface α}
      (only : program.Only fun c : Remote.Call => c.verb ≠ verb) : ReadsFirst verb program
  | look {next : Session → Program Remote.interface α}
      (rest : ∀ session, ReadsFirst verb (next session)) : ReadsFirst verb (.look next)
  | keep {session : Session} {next : Program Remote.interface α} (rest : ReadsFirst verb next) :
      ReadsFirst verb (.keep session next)
  | read {c : Remote.Call} {next : Except Fault (Remote.Reply c) → Program Remote.interface α}
      (reads : c.writes = []) (rest : ∀ reply, ReadsFirst verb (next (.ok reply))) :
      ReadsFirst verb (.call c next)
  | last {c : Remote.Call} {next : Except Fault (Remote.Reply c) → Program Remote.interface α}
      (rest : ∀ reply, (next (.ok reply)).Only fun c : Remote.Call => c.verb ≠ verb) :
      ReadsFirst verb (.call c next)

namespace ReadsFirst

variable {verb : Remote.Verb} {program : Program Remote.interface α}

theorem followed {next : α → Program Remote.interface β} (reads : program.ReadsFirst verb)
    (quiet : ∀ value, (next value).Only fun _ => False) : (program >>= next).ReadsFirst verb := by
  have others (value : α) : (next value).Only fun c : Remote.Call => c.verb ≠ verb :=
    (quiet value).mono fun _ => False.elim
  induction reads with
  | never only => exact .never (only.bind others)
  | look _ ih => exact .look ih
  | keep _ ih => exact .keep ih
  | read reads _ ih => exact .read reads ih
  | last rest => exact .last fun reply => (rest reply).bind others

/-- **Nothing is written when a call fails** before which a program only reads. -/
theorem run_failing {ready : Session → Prop} (reads : program.ReadsFirst verb)
    (relays : program.Relays ready) {h : Handler Remote.interface ω}
    (idle : ∀ c session world, c.writes = [] → (h c session world).2.2 = world) {number : Nat}
    (fault : Fault) {session : Session} (at_start : ready session)
    {watched : Watched Remote.interface ω} (early : Remote.countOf verb watched.calls < number)
    (made : number ≤ Remote.countOf verb (program.run h.recorded session watched).2.2.calls) :
    (program.run (h.failing verb number fault) session watched).2.2.world = watched.world := by
  induction reads generalizing ready session watched with
  | never only =>
    rw [only.countOf_run] at made
    exact absurd made (Nat.not_le.mpr early)
  | look _ ih =>
    cases relays with
    | look relayed => exact ih session (relayed session at_start) at_start early made
  | keep _ ih =>
    cases relays with
    | keep _ kept relayed => exact ih relayed kept early made
  | @read c next reads _ ih =>
    cases relays with
    | call stops _ relayed =>
      by_cases fails : c.verb = verb ∧ Remote.countOf verb watched.calls + 1 = number
      · rw [run, Handler.failing_fails fails.1 fails.2, (stops fault).run_quiet]
      · have early' := Remote.countOf_lt_of_passing early fails
        rw [run, Handler.recorded_eq] at made
        rw [run, Handler.failing_passes fails, Handler.recorded_eq]
        cases answered : (h c session watched.world).1 with
        | ok reply =>
          simp only [answered] at made ⊢
          exact (ih reply (relayed reply) trivial early' made).trans (idle c session watched.world reads)
        | error other =>
          simp only [answered] at made
          rw [(stops other).run_quiet] at made
          exact absurd made (Nat.not_le.mpr early')
  | @last c next rest =>
    cases relays with
    | call stops _ _ =>
      by_cases fails : c.verb = verb ∧ Remote.countOf verb watched.calls + 1 = number
      · rw [run, Handler.failing_fails fails.1 fails.2, (stops fault).run_quiet]
      · have early' := Remote.countOf_lt_of_passing early fails
        rw [run, Handler.recorded_eq] at made
        refine absurd made (Nat.not_le.mpr ?_)
        cases answered : (h c session watched.world).1 with
        | ok reply =>
          rw [(rest reply).countOf_run]
          exact early'
        | error other =>
          rw [(stops other).run_quiet]
          exact early'

theorem ask_bind {c : Remote.Call} {next : Remote.Reply c → Program Remote.interface α}
    (reads : c.writes = []) (rest : ∀ reply, (next reply).ReadsFirst verb) :
    (Remote.ask c >>= next).ReadsFirst verb :=
  .read reads rest

/-- A call after which no other is made. -/
theorem ask_last {c : Remote.Call} {next : Remote.Reply c → Program Remote.interface α}
    (rest : ∀ reply, (next reply).Only fun _ => False) : (Remote.ask c >>= next).ReadsFirst verb :=
  .last fun reply => (rest reply).mono fun _ => False.elim

theorem of_quiet (quiet : program.Only fun _ => False) : program.ReadsFirst verb :=
  .never (quiet.mono fun _ => False.elim)

end ReadsFirst

/-! ### Faults of one's own -/

/-- A program all of whose faults are of this kind if those of its calls are. -/
inductive FailsAs (blamed : Fault → Prop) : Program I α → Prop
  | done (value : α) : FailsAs blamed (.done value)
  | fail {fault : Fault} (own : blamed fault) : FailsAs blamed (.fail fault)
  | look {next : Session → Program I α} (rest : ∀ session, FailsAs blamed (next session)) :
      FailsAs blamed (.look next)
  | keep {session : Session} {next : Program I α} (rest : FailsAs blamed next) :
      FailsAs blamed (.keep session next)
  | call {c : I.Call} {next : Except Fault (I.Reply c) → Program I α}
      (rest : ∀ answer, (∀ fault, answer = .error fault → blamed fault) →
        FailsAs blamed (next answer)) : FailsAs blamed (.call c next)

namespace FailsAs

variable {blamed : Fault → Prop} {program : Program I α}

theorem bind {next : α → Program I β} (first : program.FailsAs blamed)
    (after : ∀ value, (next value).FailsAs blamed) : (program >>= next).FailsAs blamed := by
  induction first with
  | done value => exact after value
  | fail own => exact .fail own
  | look _ ih => exact .look ih
  | keep _ ih => exact .keep ih
  | call _ ih => exact .call ih

theorem ask (c : I.Call) : (Program.ask c).FailsAs blamed := by
  refine .call fun answer told => ?_
  cases answer with
  | ok reply => exact .done reply
  | error fault => exact .fail (told fault rfl)

theorem note (level : Log.Level) (part : Log.Part) (message : String) :
    (Program.note level part message : Program I Unit).FailsAs blamed :=
  .look fun _ => .keep (.done ())

/-- **A program without faults of its own** ends with none but those of the remote. -/
theorem run (fails : program.FailsAs blamed) {h : Handler I ω}
    (remote : ∀ c session world fault, (h c session world).1 = .error fault → blamed fault)
    {session : Session} {world : ω} {fault : Fault}
    (ended : (program.run h session world).1 = .error fault) : blamed fault := by
  induction fails generalizing session world with
  | done value => cases ended
  | fail own =>
    cases ended
    exact own
  | look _ ih => exact ih session ended
  | keep _ ih => exact ih ended
  | call _ ih => exact ih _ (remote _ _ _) ended

end FailsAs

/-! ### Transfers -/

theorem steady_reading {session : Session} (steady : session.desk.Steady) :
    ∃ seconds, session.readClock.1 = .fraction seconds := by
  rw [readClock_reading, Desk.reading]
  cases clock : session.desk.clock with
  | nil => exact ⟨0, rfl⟩
  | cons first rest => exact steady first (clock ▸ .head _)

/-- A report passes on the outcome by a clock that reads doubles. -/
theorem run_reported (h : Handler I ω) (name : String) (worker : Int) (path : String) {start : Instant}
    {seconds : Float} (started : start = .fraction seconds) (outcome : Except Fault α)
    {session : Session} (steady : session.desk.Steady) (world : ω) :
    ((reported name worker path start outcome).run h session world).1 = outcome := by
  obtain ⟨seconds', finished⟩ := steady_reading steady
  unfold reported clock
  split
  · rw [run_ofExcept]
  · subst started
    have told : (Instant.fraction seconds).elapsed (.fraction seconds') =
        .ok (Number.twoPlaces (seconds' - seconds)) := rfl
    simp only [run_bind, run_within, finished, told, run_ofExcept, run_note]

/-- **A transfer relays the fault of its call**, and the report of its duration takes nothing from it. -/
theorem relays_timed {c : I.Call} {next : Except Fault (I.Reply c) → Program I α}
    (raises : ∀ fault, next (.error fault) = .fail fault)
    (quiet : ∀ reply, (next (.ok reply)).Only fun _ => False) (name : String) (worker : Int)
    (path : String) :
    (Program.timed name worker path (.call c next)).Relays fun session => session.desk.Steady := by
  rw [timed_eq]
  refine .look fun session steady => .keep (fun session => session.desk.Steady) ?_ ?_
  · rw [readClock_desk]
    exact steady.later
  · obtain ⟨seconds, started⟩ := steady_reading steady
    have finishing (outcome : Except Fault α) :
        (reported name worker path session.readClock.1 outcome : Program I α).Only fun _ => False :=
      .reported name worker path _ outcome
    refine .call ?_ ?_ fun reply => .of_quiet (Only.bind (quiet reply).attempt finishing)
    · intro fault
      simp only [raises]
      exact finishing (.error fault)
    · intro fault _ h session' world steady'
      simp only [raises]
      exact run_reported h name worker path started (.error fault) steady' world

theorem reads_timed {c : Remote.Call} {next : Except Fault (Remote.Reply c) → Program Remote.interface α}
    {verb : Remote.Verb} (quiet : ∀ reply, (next (.ok reply)).Only fun _ => False) (name : String)
    (worker : Int) (path : String) :
    (Program.timed name worker path (.call c next) : Program Remote.interface α).ReadsFirst verb := by
  rw [timed_eq]
  refine .look fun session => .keep (.last fun reply => ?_)
  refine Only.mono ?_ fun _ => False.elim
  exact Only.bind (quiet reply).attempt fun outcome => .reported name worker path _ outcome

end Program

/-! ### Operations -/

namespace Vault

variable {ready : Session → Prop} {verb : Remote.Verb}

theorem relays_deleteAll (worker : Int) (name : String) (entries : List Entry) :
    (deleteAll worker name entries).Relays ready := by
  induction entries generalizing ready with
  | nil => exact .done ()
  | cons entry rest ih => exact .ask_bind fun _ => ih

theorem relays_hide (worker : Int) (name : String) : (hide worker name).Relays ready := by
  refine .ask_bind fun entries => ?_
  split
  · exact .ask_bind fun _ => .of_quiet (.note _ _ _)
  · exact .of_quiet (.note _ _ _)

theorem reads_hide (worker : Int) (name : String) : (hide worker name).ReadsFirst verb := by
  refine .ask_bind rfl fun entries => ?_
  split
  · exact .ask_last fun _ => .note _ _ _
  · exact .of_quiet (.note _ _ _)

theorem relays_resurrect (worker : Int) (name : String) : (resurrect worker name).Relays ready := by
  refine .ask_bind fun entries => ?_
  split
  · exact .ask_bind fun _ => .of_quiet (.note _ _ _)
  · exact .of_quiet (.note _ _ _)

theorem reads_resurrect (worker : Int) (name : String) : (resurrect worker name).ReadsFirst verb := by
  refine .ask_bind rfl fun entries => ?_
  split
  · exact .ask_last fun _ => .note _ _ _
  · exact .of_quiet (.note _ _ _)

theorem relays_deleteNewest (worker : Int) (name : String) :
    (deleteNewest worker name).Relays ready := by
  refine .ask_bind fun entries => ?_
  cases entries with
  | nil => exact .done ()
  | cons newest older => exact .ask_bind fun _ => .of_quiet (.note _ _ _)

theorem reads_deleteNewest (worker : Int) (name : String) :
    (deleteNewest worker name).ReadsFirst verb := by
  refine .ask_bind rfl fun entries => ?_
  cases entries with
  | nil => exact .of_quiet (.done ())
  | cons newest older => exact .ask_last fun _ => .note _ _ _

/-- A purge makes no other call than deletions after its listing. -/
theorem reads_purge (vault : Vault) (other : verb ≠ .delete) (worker : Int) (name : String) :
    (vault.perform (.delete worker (Fossil.fossilOf name))).ReadsFirst verb := by
  obtain ⟨finish, quiet, purges⟩ := vault.perform_purge worker name
  rw [purges]
  refine .ask_bind rfl fun entries => .never ?_
  refine (only_deleteAll worker name _ fun _ _ => ?_).bind fun value =>
    (quiet entries value).mono fun _ => False.elim
  exact other.symm

theorem relays_move (worker : Int) (source target : String) :
    (move worker source target).Relays ready := by
  by_cases back : source = Fossil.fossilOf target
  · subst back
    rw [move_back]
    exact relays_resurrect worker target
  · by_cases there : target = Fossil.fossilOf source ∧ Fossil.isFossil source = false
    · obtain ⟨rfl, bare⟩ := there
      rw [move_there worker bare]
      exact relays_hide worker source
    · rw [move_refused worker back there]
      exact .of_quiet ((Program.Only.note _ _ _).bind fun _ => .fail _)

theorem reads_move (worker : Int) (source target : String) :
    (move worker source target).ReadsFirst verb := by
  by_cases back : source = Fossil.fossilOf target
  · subst back
    rw [move_back]
    exact reads_resurrect worker target
  · by_cases there : target = Fossil.fossilOf source ∧ Fossil.isFossil source = false
    · obtain ⟨rfl, bare⟩ := there
      rw [move_there worker bare]
      exact reads_hide worker source
    · rw [move_refused worker back there]
      exact .of_quiet ((Program.Only.note _ _ _).bind fun _ => .fail _)

/-- **A move that means a change has no fault of its own.** -/
theorem failsAs_move {blamed : Fault → Prop} {worker : Int} {source target : String}
    (means : (Operation.move worker source target).change.isSome = true) :
    (move worker source target).FailsAs blamed := by
  by_cases back : source = Fossil.fossilOf target
  · subst back
    rw [move_back]
    refine (Program.FailsAs.ask _).bind fun entries => ?_
    split
    · exact (Program.FailsAs.ask _).bind fun _ => .note _ _ _
    · exact .note _ _ _
  · by_cases there : target = Fossil.fossilOf source ∧ Fossil.isFossil source = false
    · obtain ⟨rfl, bare⟩ := there
      rw [move_there worker bare]
      refine (Program.FailsAs.ask _).bind fun entries => ?_
      split
      · exact (Program.FailsAs.ask _).bind fun _ => .note _ _ _
      · exact .note _ _ _
    · rw [Operation.change_refused worker back there] at means
      cases means

/-- **Every operation relays the faults of its calls**, by a clock that reads doubles. -/
theorem relays_perform (vault : Vault) (operation : Operation) :
    (vault.perform operation).Relays fun session => session.desk.Steady := by
  have ended (answer : Answer) : (pure answer : Program Remote.interface Answer).Only fun _ => False :=
    .done answer
  cases operation with
  | upload worker path content =>
    exact (Program.relays_timed (fun _ => rfl) (fun _ => .done ()) _ _ _).followed fun _ => ended _
  | download worker path destination =>
    refine .look fun session steady => .keep (fun session => session.desk.Steady) (steady.of_clock rfl) ?_
    exact (Program.relays_timed (fun _ => rfl) (fun opened => vault.only_receive worker _) _ _
      _).followed fun _ => ended _
  | move worker source target => exact (relays_move worker source target).followed fun _ => ended _
  | delete worker path =>
    rcases Bool.eq_false_or_eq_true (Fossil.isFossil path) with fossil | bare
    · obtain ⟨name, rfl⟩ := Fossil.isFossil_iff.mp fossil
      obtain ⟨finish, quiet, purges⟩ := vault.perform_purge worker name
      rw [purges]
      exact .ask_bind fun entries => (relays_deleteAll worker name _).followed (quiet entries)
    · rw [perform, delete, Fossil.parse_of_bare bare]
      exact (relays_deleteNewest worker path).followed fun _ => ended _
  | inspect worker path =>
    have looks : (inspect worker path).Relays fun session => session.desk.Steady :=
      .ask_bind fun _ => .done _
    exact looks.followed fun _ => ended _
  | list worker directory =>
    have lists : (list worker directory).Relays fun session => session.desk.Steady := by
      unfold list
      simp only
      split
      · exact .ask_bind fun _ => .done _
      · split <;> exact .ask_bind fun _ => .done _
    exact lists.followed fun _ => ended _
  | makeDirectory worker directory => exact .done _

/-- **An operation writes nothing before its last call**, unless it is a purge and the call a deletion. -/
theorem reads_perform (vault : Vault) {operation : Operation}
    (single : verb = .delete → ∀ worker name, operation ≠ .delete worker (Fossil.fossilOf name)) :
    (vault.perform operation).ReadsFirst verb := by
  have ended (answer : Answer) : (pure answer : Program Remote.interface Answer).Only fun _ => False :=
    .done answer
  cases operation with
  | upload worker path content =>
    exact (Program.reads_timed (fun _ => .done ()) _ _ _).followed fun _ => ended _
  | download worker path destination =>
    refine .look fun session => .keep ?_
    exact (Program.reads_timed (fun opened => vault.only_receive worker _) _ _ _).followed fun _ =>
      ended _
  | move worker source target => exact (reads_move worker source target).followed fun _ => ended _
  | delete worker path =>
    rcases Bool.eq_false_or_eq_true (Fossil.isFossil path) with fossil | bare
    · obtain ⟨name, rfl⟩ := Fossil.isFossil_iff.mp fossil
      exact vault.reads_purge (fun deletes => single deletes worker name rfl) worker name
    · rw [perform, delete, Fossil.parse_of_bare bare]
      exact (reads_deleteNewest worker path).followed fun _ => ended _
  | inspect worker path =>
    have looks : (inspect worker path).ReadsFirst verb := .ask_bind rfl fun _ => .of_quiet (.done _)
    exact looks.followed fun _ => ended _
  | list worker directory =>
    have lists : (list worker directory).ReadsFirst verb := by
      unfold list
      simp only
      split
      · exact .ask_bind rfl fun _ => .of_quiet (.done _)
      · split <;> exact .ask_bind rfl fun _ => .of_quiet (.done _)
    exact lists.followed fun _ => ended _
  | makeDirectory worker directory => exact .of_quiet (ended _)

end Vault

end FossilVault
