import FossilVault.Proofs.Ledger.Skipping
/-
**Workers apart.** Workers that touch different names do not interfere, though they share one ledger with
one count of identifiers, and though one name may be the beginning of another. What a worker does among
the others is what it does alone on a ledger that skips identifiers, and nothing depends on which ones
are skipped. So all interleavings come to what the workers come to one after the other.

* `Seen` — a ledger of one's own, by the names that it shares with a ledger of all;
* `Seen.own_call`, `Seen.other` — a call of one's own and a call of another worker;
* `Seen.projects` — a worker in a crew runs its program alone;
* `worker_agrees`, `names_agree` — any two schedules come to the same;
* `workers_apart` — every schedule ends as the workers do one after the other.
-/

namespace FossilVault.Ledger

/-- A call about one of these names. -/
def Inside (names : String → Prop) (c : Remote.Call) : Prop :=
  ∃ name, c.about = some name ∧ names name

/-- A call about a name that is none of these. -/
def Outside (names : String → Prop) (c : Remote.Call) : Prop :=
  ∃ name, c.about = some name ∧ ¬ names name

/-- A ledger of one's own shows these names as the ledger of all does, and no identifier that it gives
was given by that. -/
structure Seen (names : String → Prop) (own world : Ledger) : Prop where
  histories {name : String} (inside : names name) : own.history name = world.history name
  issued : own.issued ≤ world.issued

namespace Seen

variable {names : String → Prop} {own world : Ledger}

/-- **A call about another name does not show.** -/
theorem other (seen : Seen names own world) {c : Remote.Call} (outside : Outside names c)
    (session : Session) : Seen names own (answer c session world).2.2 := by
  obtain ⟨path, about, apart⟩ := outside
  have different {name : String} (inside : names name) : name ≠ path := fun same => apart (same ▸ inside)
  have pushed (content : Option Bytes) : Seen names own (world.push path content) :=
    ⟨fun inside => (seen.histories inside).trans
      ((history_push world path content _).trans (if_neg (different inside))).symm,
      Nat.le_succ_of_le seen.issued⟩
  cases c with
  | delete worker name id =>
    obtain rfl : name = path := Option.some.inj about
    exact ⟨fun inside => (seen.histories inside).trans
      ((history_remove world name id _).trans (if_neg (different inside))).symm, seen.issued⟩
  | hide worker name =>
    obtain rfl : name = path := Option.some.inj about
    exact pushed none
  | upload worker name content rate =>
    obtain rfl : name = path := Option.some.inj about
    exact pushed (some content)
  | authorize | findBucket | list | download => exact seen

theorem pushed (seen : Seen names own world) (level : own.issued = world.issued) (path : String)
    (content : Option Bytes) : Seen names (own.push path content) (world.push path content) where
  histories {name} inside := by
    rw [history_push, history_push, level]
    by_cases same : name = path
    · rw [if_pos same, if_pos same, ← same, seen.histories inside]
    · rw [if_neg same, if_neg same, seen.histories inside]
  issued := Nat.succ_le_succ seen.issued

theorem removed (seen : Seen names own world) (path id : String) :
    Seen names (own.remove path id) (world.remove path id) where
  histories {name} inside := by
    rw [history_remove, history_remove]
    by_cases same : name = path
    · rw [if_pos same, if_pos same, ← same, seen.histories inside]
    · rw [if_neg same, if_neg same, seen.histories inside]
  issued := seen.issued

/-- **A call about one's own name is answered alike** when the same identifier is next. -/
theorem answered (seen : Seen names own world) (level : own.issued = world.issued) {c : Remote.Call}
    (inside : Inside names c) (session : Session) :
    ∃ reply own' world', answer c session own = (reply, session, own') ∧
      answer c session world = (reply, session, world') ∧ Seen names own' world' := by
  obtain ⟨path, about, held⟩ := inside
  have stack := seen.histories held
  cases c with
  | list worker stem exact withHidden =>
    cases exact with
    | false => cases about
    | true =>
      obtain rfl : stem = path := Option.some.inj about
      have shown (ledger : Ledger) : ledger.entries stem true withHidden =
          Catalog.shelfListing id id withHidden (stem, ledger.history stem) :=
        Catalog.listing_exact id archive_lawful.order_void stem withHidden ledger.names
      refine ⟨_, _, _, rfl, ?_, seen⟩
      rw [answer, shown, shown, stack]
  | delete worker name id => exact ⟨_, _, _, rfl, rfl, seen.removed name id⟩
  | hide worker name =>
    refine ⟨_, _, _, rfl, ?_, seen.pushed level name none⟩
    rw [answer, level]
  | upload worker name content rate => exact ⟨_, _, _, rfl, rfl, seen.pushed level name (some content)⟩
  | download worker name =>
    obtain rfl : name = path := Option.some.inj about
    refine ⟨_, _, _, rfl, ?_, seen⟩
    rw [answer, opened, opened, stack]
  | authorize | findBucket => cases about

/-- A call about one's own name is answered alike, once as many identifiers were skipped as were given to
others. -/
theorem own_call (seen : Seen names own world) {c : Remote.Call} (inside : Inside names c)
    (session : Session) :
    ∃ reply own' world', answer c session world = (reply, session, world') ∧
      Seen names own' world' ∧
      ∀ skips, Skipping.answer c session ⟨own, (world.issued - own.issued) :: skips⟩ =
        (reply, session, ⟨own', skips⟩) := by
  have level : (own.skip (world.issued - own.issued)).issued = world.issued :=
    Nat.add_sub_of_le seen.issued
  have caughtUp : Seen names (own.skip (world.issued - own.issued)) world :=
    ⟨seen.histories, Nat.le_of_eq level⟩
  obtain ⟨reply, own', world', mine, all, seen'⟩ := caughtUp.answered level inside session
  refine ⟨reply, own', world', all, seen', ?_⟩
  intro skips
  rw [Skipping.answer]
  simp only [List.headD_cons, List.tail_cons, mine]

/-! ### One worker in a crew -/

variable {α : Type} {crew : Crew Remote.interface Ledger α} {index : Nat}

/-- A turn of a worker on other names does not show. -/
theorem turn_other (seen : Seen names own crew.world) (confined : crew.Confined index (Outside names)) :
    Seen names own (crew.turn answer index).world := by
  cases somebody : crew.members[index]? with
  | none =>
    rw [Crew.turn_of_none somebody]
    exact seen
  | some member =>
    obtain ⟨program, session⟩ := member
    rw [Crew.turn_of_some somebody]
    rcases (confined _ somebody).advance session with
      ⟨program', session', _, _, ran⟩ | ⟨c, session', next, outside, _, ran⟩
    · rw [ran]
      exact seen
    · rw [ran]
      exact seen.other outside session'

/-- Names that nobody touches stay as they are. -/
theorem run_others (seen : Seen names own crew.world)
    (confined : ∀ index, crew.Confined index (Outside names)) (schedule : List Nat) :
    Seen names own (crew.run answer schedule).world := by
  induction schedule generalizing crew with
  | nil => exact seen
  | cons place rest ih =>
    exact ih (seen.turn_other (confined place)) fun index => (confined index).turn place

/-- **A worker among workers on other names runs its program alone**, on a ledger of its own that skips
the identifiers that the others are given. -/
theorem projects (seen : Seen names own crew.world) {program : Program Remote.interface α}
    {session : Session} (somebody : crew.members[index]? = some (program, session))
    (inside : program.Only (Inside names))
    (others : ∀ other, other ≠ index → crew.Confined other (Outside names)) (schedule : List Nat) :
    ∃ program' session' own' skips,
      (crew.run answer schedule).members[index]? = some (program', session') ∧
      Seen names own' (crew.run answer schedule).world ∧
      ∀ rest, program.run Skipping.answer session ⟨own, skips ++ rest⟩ =
        program'.run Skipping.answer session' ⟨own', rest⟩ := by
  induction schedule generalizing crew program session own with
  | nil => exact ⟨program, session, own, [], somebody, seen, fun _ => rfl⟩
  | cons place later ih =>
    have others' (other : Nat) (different : other ≠ index) :
        (crew.turn answer place).Confined other (Outside names) := (others other different).turn place
    by_cases same : place = index
    · subst same
      have moved := Crew.members_turn_self (h := answer) somebody
      have world := congrArg Crew.world (Crew.turn_of_some (h := answer) somebody)
      rcases inside.advance session with
        ⟨next, session', _, inside', ran⟩ | ⟨c, session', next, within, inside', ran⟩
      · rw [ran] at moved world
        obtain ⟨program', session'', own', skips, ended, seen', alone⟩ :=
          ih (world ▸ seen) moved inside' others'
        refine ⟨program', session'', own', skips, ended, seen', ?_⟩
        intro rest
        rw [← alone, ← Program.run_advance, ran]
      · obtain ⟨reply, own₁, world₁, answered, seen₁, mine⟩ := seen.own_call within session'
        rw [ran, answered] at moved world
        have world : (crew.turn answer place).world = world₁ := world
        obtain ⟨program', session'', own', skips, ended, seen', alone⟩ :=
          ih (world ▸ seen₁) moved (inside' reply) others'
        refine ⟨program', session'', own', (crew.world.issued - own.issued) :: skips, ended, seen', ?_⟩
        intro rest
        rw [← alone, ← Program.run_advance, ran, List.cons_append, mine]
    · rw [← Crew.members_turn_of_ne (h := answer) same] at somebody
      exact ih (seen.turn_other (others place same)) somebody inside others'

/-- A worker that has come to its end came to what its program comes to alone. -/
theorem ends (seen : Seen names own crew.world) {program : Program Remote.interface α}
    {session : Session} (somebody : crew.members[index]? = some (program, session))
    (inside : program.Only (Inside names))
    (others : ∀ other, other ≠ index → crew.Confined other (Outside names)) {schedule : List Nat}
    (finished : (crew.run answer schedule).Finished) :
    ∃ skips, let ended := program.run Skipping.answer session ⟨own, skips⟩
      (crew.run answer schedule).ending index = some ended.1 ∧
        Seen names ended.2.2.ledger (crew.run answer schedule).world := by
  obtain ⟨program', session', own', skips, at_index, seen', alone⟩ :=
    seen.projects somebody inside others schedule
  have ended := finished _ (List.mem_of_getElem? at_index)
  have alone := alone []
  rw [List.append_nil] at alone
  refine ⟨skips, ?_⟩
  rw [Crew.ending, at_index, alone]
  cases program' with
  | done value => exact ⟨rfl, seen'⟩
  | fail fault => exact ⟨rfl, seen'⟩
  | look | keep | call => cases ended

end Seen

/-! ### Workers on different names -/

/-- The names that some operations touch. -/
def touchedBy (operations : List Operation) (name : String) : Prop :=
  ∃ operation ∈ operations, operation.touched = some name

/-- No name is touched by two of the workers. -/
def Apart (asked : List (List Operation × Session)) : Prop :=
  asked.Pairwise fun first second => ∀ name, touchedBy first.1 name → ¬ touchedBy second.1 name

theorem Apart.disjoint {asked : List (List Operation × Session)} (apart : Apart asked)
    {index other : Nat} (different : other ≠ index) {worker worker' : List Operation × Session}
    (at_index : asked[index]? = some worker) (at_other : asked[other]? = some worker') {name : String}
    (touched : touchedBy worker'.1 name) : ¬ touchedBy worker.1 name := by
  obtain ⟨low, rfl⟩ := List.getElem?_eq_some_iff.mp at_index
  obtain ⟨low', rfl⟩ := List.getElem?_eq_some_iff.mp at_other
  intro both
  rcases Nat.lt_or_gt_of_ne different with before | after
  · exact List.pairwise_iff_getElem.mp apart other index low' low before name touched both
  · exact List.pairwise_iff_getElem.mp apart index other low low' after name both touched

section Errands

variable (vault : Vault) {asked : List (List Operation × Session)} {ledger : Ledger}

/-- The calls of a worker are about the names that it touches. -/
theorem inside_performAll {operations : List Operation}
    (named : ∀ operation ∈ operations, operation.touched.isSome = true) :
    (vault.performAll operations).Only (Inside (touchedBy operations)) := by
  refine (vault.only_performAll operations).mono ?_
  rintro c ⟨operation, among, makes⟩
  obtain ⟨name, touched⟩ := Option.isSome_iff_exists.mp (named operation among)
  exact ⟨name, makes.about touched, operation, among, touched⟩

variable (named : ∀ worker ∈ asked, ∀ operation ∈ worker.1, operation.touched.isSome = true)

include named

/-- Who touches none of the names makes calls about others only. -/
theorem outside_errands {names : String → Prop} {index : Nat}
    (apart : ∀ worker, asked[index]? = some worker → ∀ name, touchedBy worker.1 name → ¬ names name) :
    (vault.errands asked ledger).Confined index (Outside names) := by
  intro member at_index
  rw [vault.members_errands] at at_index
  cases somebody : asked[index]? with
  | none =>
    rw [somebody] at at_index
    cases at_index
  | some worker =>
    rw [somebody] at at_index
    cases at_index
    refine (inside_performAll vault (named worker (List.mem_of_getElem? somebody))).mono ?_
    rintro c ⟨name, about, touched⟩
    exact ⟨name, about, apart worker somebody name touched⟩

variable (sound : ledger.Sound) (apart : Apart asked) {schedule schedule' : List Nat}
  (finished : ((vault.errands asked ledger).run answer schedule).Finished)
  (finished' : ((vault.errands asked ledger).run answer schedule').Finished)

include sound apart finished finished'

/-- **A worker reports the same and leaves the same contents** after any two schedules that bring all
workers to their ends. -/
theorem worker_agrees {index : Nat} {operations : List Operation} {session : Session}
    (at_index : asked[index]? = some (operations, session)) :
    (∃ reports : List Report, reports.length = operations.length ∧
      ((vault.errands asked ledger).run answer schedule).ending index = some (.ok reports) ∧
      ((vault.errands asked ledger).run answer schedule').ending index = some (.ok reports)) ∧
    ∀ name, touchedBy operations name → Same name ((vault.errands asked ledger).run answer schedule).world
      ((vault.errands asked ledger).run answer schedule').world := by
  have somebody : (vault.errands asked ledger).members[index]? =
      some (vault.performAll operations, session) := by
    rw [vault.members_errands, at_index]
    rfl
  have mine := named _ (List.mem_of_getElem? at_index)
  have inside := inside_performAll vault mine
  have others (other : Nat) (different : other ≠ index) :
      (vault.errands asked ledger).Confined other (Outside (touchedBy operations)) :=
    outside_errands vault named fun _ at_other _ touched =>
      apart.disjoint different at_index at_other touched
  have seen : Seen (touchedBy operations) ledger (vault.errands asked ledger).world :=
    ⟨fun _ => rfl, Nat.le_refl _⟩
  obtain ⟨skips, ended, left⟩ := seen.ends somebody inside others finished
  obtain ⟨skips', ended', left'⟩ := seen.ends somebody inside others finished'
  have within : ∀ operation ∈ operations, ∃ name, operation.touched = some name ∧
      touchedBy operations name := by
    intro operation among
    obtain ⟨name, touched⟩ := Option.isSome_iff_exists.mp (mine operation among)
    exact ⟨name, touched, operation, among, touched⟩
  have ready (skips : List Nat) : (Skipping.mk ledger skips).ledger.Sound := sound
  obtain ⟨outcome, contents⟩ := Skipping.performAll_alike vault within (ready skips) (ready skips')
    (.refl session) fun _ _ => rfl
  constructor
  · obtain ⟨reports, reported, whole⟩ :=
      vault.performAll_reports Skipping.answer operations session ⟨ledger, skips⟩
    refine ⟨reports, whole, ?_, ?_⟩
    · rw [ended, reported]
    · rw [ended', ← outcome, reported]
  · intro name touched
    have same := contents name touched
    unfold Same at same ⊢
    rwa [left.histories touched, left'.histories touched] at same

/-- **All names hold the same contents** after any two schedules that bring all workers to their ends. -/
theorem names_agree (name : String) : Same name ((vault.errands asked ledger).run answer schedule).world
    ((vault.errands asked ledger).run answer schedule').world := by
  by_cases somebody : ∃ worker ∈ asked, touchedBy worker.1 name
  · obtain ⟨worker, among, touched⟩ := somebody
    obtain ⟨index, at_index⟩ := List.mem_iff_getElem?.mp among
    exact (worker_agrees vault named sound apart finished finished' at_index).2 name touched
  · have nobody (index : Nat) : (vault.errands asked ledger).Confined index (Outside (· = name)) := by
      refine outside_errands vault named ?_
      rintro worker at_index path touched rfl
      exact somebody ⟨worker, List.mem_of_getElem? at_index, touched⟩
    have seen : Seen (· = name) ledger (vault.errands asked ledger).world :=
      ⟨fun _ => rfl, Nat.le_refl _⟩
    have still := (seen.run_others nobody schedule).histories rfl
    have still' := (seen.run_others nobody schedule').histories rfl
    rw [Same, ← still, ← still']

end Errands

/-- The kind, the size and the content of each version of a name; identifiers are left aside. -/
def stored (name : String) (ledger : Ledger) : List (Bool × Nat × Option Bytes) :=
  (ledger.history name).map fun version => (version.isHidden, version.size, version.content)

theorem Same.stored {name : String} {first second : Ledger} (same : Same name first second) :
    first.stored name = second.stored name := by
  have told (ledger : Ledger) : ledger.stored name = ((ledger.history name).map Version.content).map
      fun content => (content.isNone, (content.map List.length).getD 0, content) := by
    rw [List.map_map]
    rfl
  rw [told, told, same]

/-- **Workers that touch different names do not interfere.** However their calls interleave, every
operation comes to what it comes to, and every name holds what it holds, when the workers go one after the
other, in whatever order. -/
theorem workers_apart (vault : Vault) {asked : List (List Operation × Session)} {ledger : Ledger}
    (sound : ledger.Sound)
    (named : ∀ worker ∈ asked, ∀ operation ∈ worker.1, operation.touched.isSome = true)
    (apart : Apart asked) {schedule : List Nat}
    (finished : ((vault.errands asked ledger).run answer schedule).Finished) {order : List Nat}
    (everybody : ∀ index, index < asked.length → index ∈ order) :
    let mixed := (vault.errands asked ledger).run answer schedule
    let inTurn := (vault.errands asked ledger).inTurn answer order
    (∀ index operations session, asked[index]? = some (operations, session) →
      ∃ reports : List Report, reports.length = operations.length ∧
        mixed.ending index = some (.ok reports) ∧ inTurn.ending index = some (.ok reports)) ∧
    ∀ name, mixed.world.stored name = inTurn.world.stored name := by
  intro mixed inTurn
  have finished' : inTurn.Finished := by
    intro member among
    obtain ⟨index, at_index⟩ := List.mem_iff_getElem?.mp among
    refine Crew.ended_inTurn ?_ member at_index
    by_cases low : index < asked.length
    · exact .inl (everybody index low)
    · refine .inr ?_
      intro member somebody
      rw [vault.members_errands, List.getElem?_eq_none (Nat.not_lt.mp low)] at somebody
      cases somebody
  obtain ⟨schedule', scheduled⟩ :=
    Crew.exists_schedule_inTurn answer order (vault.errands asked ledger)
  have same : inTurn = (vault.errands asked ledger).run answer schedule' := scheduled
  rw [same] at finished' ⊢
  constructor
  · intro index operations session at_index
    exact (worker_agrees vault named sound apart finished finished' at_index).1
  · intro name
    exact (names_agree vault named sound apart finished finished' name).stored

/-- Two workers, one on a name that the other's name begins with, take turns at their calls. -/
theorem workers_apart_prefix :
    let asked : List (List Operation × Session) :=
      [([.upload 0 "n" [120], .move 0 "n" "n.fsl", .inspect 0 "n.fsl"], {}),
        ([.upload 1 "nn" [121], .delete 1 "nn", .download 1 "nn" {}], {})]
    let mixed := (Vault.errands {} asked {}).run answer [0, 1, 1, 0, 0, 1, 0, 1, 1, 0]
    let inTurn := (Vault.errands {} asked {}).inTurn answer [1, 0]
    mixed.Finished ∧
      (∃ reports : List Report, reports.length = 3 ∧
        mixed.ending 0 = some (.ok reports) ∧ inTurn.ending 0 = some (.ok reports)) ∧
      (∃ reports : List Report, reports.length = 3 ∧
        mixed.ending 1 = some (.ok reports) ∧ inTurn.ending 1 = some (.ok reports)) ∧
      ∀ name, mixed.world.stored name = inTurn.world.stored name := by
  intro asked mixed inTurn
  have named : ∀ worker ∈ asked, ∀ operation ∈ worker.1, operation.touched.isSome = true := by
    decide
  have apart : Apart asked := by
    have first : Fossil.parse "n" = ⟨"n", false⟩ := by decide
    have hidden : Fossil.parse "n.fsl" = ⟨"n", true⟩ := by decide
    have second : Fossil.parse "nn" = ⟨"nn", false⟩ := by decide
    simp [Apart, asked, touchedBy, Operation.touched, first, hidden, second]
  have finished : mixed.Finished := by decide +kernel
  have everybody : ∀ index, index < asked.length → index ∈ [1, 0] := by decide
  obtain ⟨reports, names⟩ := workers_apart {} sound_empty named apart finished everybody
  exact ⟨finished, reports 0 _ _ rfl, reports 1 _ _ rfl, names⟩

end FossilVault.Ledger
