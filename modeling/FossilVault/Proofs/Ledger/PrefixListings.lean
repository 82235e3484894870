import FossilVault.Proofs.Errands
import FossilVault.Proofs.Exchanges
import FossilVault.Proofs.Ledger.Refinement
/-
**Listings by prefix.** Some remotes cannot list the versions of one name: asked for a name, they list all
names that start with it. The name itself comes first in such a listing, so the vault takes its state from
the first entry and its doomed versions from the entries that bear its name. The one deletion that follows a
listing unchecked, that of the newest version, names the requested name, and of a missing name it deletes
nothing.

* `Remote.widened` — the remote that lists by prefix;
* `Ledger.stateOf_widened`, `Ledger.doomed_widened` — what a vault reads in a listing stays the same;
* `Ledger.remove_of_missing` — deleting what is not stored changes nothing;
* `Ledger.Tolerant`, `Ledger.perform_cases` — what each operation makes of a listing;
* `Ledger.ends_widened` — an operation comes to the same with listings by prefix;
* `Ledger.prefix_listings_suffice` — and it reads and deletes no version of a longer name.
-/

namespace FossilVault

variable {ω α β : Type}

/-- The remote that lists all names that start with the requested one, be it one name that is asked for. -/
def Remote.widened (h : Handler interface ω) : Handler interface ω
  | .list worker stem _ withHidden, session, world => h (.list worker stem false withHidden) session world
  | c, session, world => h c session world

/-- The call asks for the versions of one name. -/
def Remote.Call.exact : Remote.Call → Bool
  | .list _ _ exact _ => exact
  | _ => false

theorem Remote.widened_eq (h : Handler interface ω) {c : Remote.Call} (any : c.exact = false)
    (session : Session) (world : ω) : widened h c session world = h c session world := by
  cases c with
  | list worker stem exact withHidden =>
    change exact = false at any
    rw [any]
    rfl
  | authorize | findBucket | delete | hide | upload | download => rfl

/-- An operation that touches no name asks for no single one. -/
theorem Operation.Makes.any {operation : Operation} {c : Remote.Call} (makes : operation.Makes c)
    (untouched : operation.touched = none) : c.exact = false := by
  cases makes with
  | list => rfl
  | upload | download | consider | hide | unhide | examine | delete | inspect => cases untouched

namespace Ledger

variable {vault : Vault} {ledger : Ledger} {name : String}

/-! ### Reading a listing -/

/-- A listing by prefix is that of the name itself, and behind it those of longer names. -/
theorem entries_widened (ledger : Ledger) (name : String) (withHidden : Bool) :
    ∃ longer, ledger.entries name false withHidden = ledger.entries name true withHidden ++ longer ∧
      ∀ entry ∈ longer, entry.name ≠ name :=
  Catalog.listing_prefix id id name withHidden ledger.names

/-- **A longer name is never read as the requested one.** -/
theorem stateOf_widened (ledger : Ledger) (name : String) (withHidden : Bool) :
    stateOf name (ledger.entries name false withHidden) =
      stateOf name (ledger.entries name true withHidden) := by
  obtain ⟨longer, whole, others⟩ := ledger.entries_widened name withHidden
  rw [whole]
  cases ledger.entries name true withHidden with
  | cons entry rest => rfl
  | nil =>
    cases longer with
    | nil => rfl
    | cons entry rest => exact if_neg (others entry (.head _))

/-- **A longer name is not doomed with the requested one.** -/
theorem doomed_widened (ledger : Ledger) (name : String) (withHidden : Bool) :
    Vault.doomed name (ledger.entries name false withHidden) =
      Vault.doomed name (ledger.entries name true withHidden) := by
  obtain ⟨longer, whole, others⟩ := ledger.entries_widened name withHidden
  have none {entries : List Entry} (part : entries.Sublist longer) :
      entries.filter (·.name == name) = [] := by
    rw [List.filter_eq_nil_iff]
    intro entry among
    simpa using others entry (part.mem among)
  rw [whole, Vault.doomed, Vault.doomed, List.dropWhile_append]
  split
  · rename_i void
    rw [List.isEmpty_iff.mp void, none (List.dropWhile_sublist _), List.filter_nil]
  · rw [List.filter_append, none (List.Sublist.refl _), List.append_nil]

/-! ### Deleting what is not stored -/

/-- **Deleting a version that is not stored changes nothing.** -/
theorem remove_of_missing {id : String} (missing : ∀ version ∈ ledger.history name, version.id ≠ id) :
    ledger.remove name id = ledger := by
  refine eq_of_names (Catalog.ext_history fun other => ?_) rfl
  show (ledger.remove name id).history other = ledger.history other
  rw [history_remove]
  split
  · rename_i same
    rw [same, List.filter_eq_self]
    intro version among
    exact bne_iff_ne.mpr (missing version among)
  · rfl

/-! ### What follows a listing -/

/-- What an operation may ask for once it has listed a name: nothing about another name, and no deletion but
of versions that are stored, unless the name is missing. -/
inductive Follows (ledger : Ledger) (name : String) : Remote.Call → Prop
  | hide (worker : Int) : Follows ledger name (.hide worker name)
  | upload (worker : Int) (content : Bytes) (rate : Int) :
      Follows ledger name (.upload worker name content rate)
  | download (worker : Int) : Follows ledger name (.download worker name)
  | delete (worker : Int) {id : String}
      (stored : ledger.history name = [] ∨ ∃ version ∈ ledger.history name, version.id = id) :
      Follows ledger name (.delete worker name id)

theorem Follows.exact {c : Remote.Call} (follows : ledger.Follows name c) : c.exact = false := by
  cases follows <;> rfl

/-- A program lists one name and goes on with calls that may follow, and if longer names are listed too it
ends as it does otherwise. -/
def Tolerant (ledger : Ledger) (name : String) (program : Program Remote.interface α) : Prop :=
  ∃ worker withHidden next,
    program = Remote.ask (.list worker name true withHidden) >>= next ∧
      (next (ledger.entries name false withHidden)).Only (ledger.Follows name) ∧
      ∀ session,
        let wide := (next (ledger.entries name false withHidden)).run answer session ledger
        let exact := (next (ledger.entries name true withHidden)).run answer session ledger
        wide.1 = exact.1 ∧ wide.2.2 = exact.2.2

/-- A program that makes the same of both listings. -/
theorem tolerant_of_same {worker : Int} {withHidden : Bool}
    {next : List Entry → Program Remote.interface α}
    (only : (next (ledger.entries name true withHidden)).Only (ledger.Follows name))
    (same : next (ledger.entries name false withHidden) = next (ledger.entries name true withHidden)) :
    ledger.Tolerant name (Remote.ask (.list worker name true withHidden) >>= next) :=
  ⟨worker, withHidden, next, rfl, same.symm ▸ only, fun _ => by rw [same]; exact ⟨rfl, rfl⟩⟩

theorem Tolerant.map {program : Program Remote.interface α} (tolerant : ledger.Tolerant name program)
    (f : α → β) : ledger.Tolerant name (program >>= fun value => pure (f value)) := by
  obtain ⟨worker, withHidden, next, rfl, only, same⟩ := tolerant
  refine ⟨worker, withHidden, _, Program.bind_assoc _ _ _, only.bind fun _ => .done _, ?_⟩
  intro session
  obtain ⟨outcome, left⟩ := same session
  simp only [Program.run_bind]
  generalize (next (ledger.entries name false withHidden)).run answer session ledger = wide at outcome left
  generalize (next (ledger.entries name true withHidden)).run answer session ledger = exact at outcome left
  obtain ⟨ended, _, _⟩ := wide
  obtain ⟨_, _, _⟩ := exact
  obtain rfl := outcome
  cases ended with
  | ok value => exact ⟨rfl, left⟩
  | error fault => exact ⟨rfl, left⟩

theorem mem_history_of_mem_entries {entry : Entry} (among : entry ∈ ledger.entries name true true) :
    ∃ version ∈ ledger.history name, version.id = entry.id := by
  rw [entries_exact] at among
  obtain ⟨version, inside, rfl⟩ := List.mem_map.mp among
  exact ⟨version, inside, rfl⟩

theorem tolerant_inspect (ledger : Ledger) (worker : Int) (path : String) :
    ledger.Tolerant (Fossil.parse path).name (Vault.inspect worker path) := by
  refine tolerant_of_same (.done _) ?_
  simp only [stateOf_widened]

theorem tolerant_hide (ledger : Ledger) (worker : Int) (name : String) :
    ledger.Tolerant name (Vault.hide worker name) := by
  refine tolerant_of_same ?_ ?_
  · split
    · exact (Program.Only.ask (.hide worker)).bind fun _ => .note _ _ _
    · exact .note _ _ _
  · simp only [stateOf_widened]

theorem tolerant_resurrect (ledger : Ledger) (worker : Int) (name : String) :
    ledger.Tolerant name (Vault.resurrect worker name) := by
  refine tolerant_of_same ?_ ?_
  · split
    · rename_i marker size top
      obtain ⟨entry, among, state⟩ := mem_of_stateOf top
      obtain ⟨version, inside, same⟩ := mem_history_of_mem_entries among
      have named : version.id = marker := by
        rw [same, ← Entry.state_id, state]
        rfl
      exact (Program.Only.ask (.delete worker (.inr ⟨version, inside, named⟩))).bind fun _ => .note _ _ _
    · exact .note _ _ _
  · simp only [stateOf_widened]

theorem tolerant_purge (ledger : Ledger) (worker : Int) (name : String) :
    ledger.Tolerant name (Vault.purge worker name) := by
  refine tolerant_of_same ?_ ?_
  · refine (Vault.only_deleteAll worker name _ ?_).bind fun _ => ?_
    · intro entry among
      exact .delete worker (.inr (mem_history_of_mem_entries (Vault.mem_doomed among).2))
    · split
      · exact .note _ _ _
      · exact .done ()
  · simp only [doomed_widened]

/-- The newest version is deleted without a look at its name. If the listing starts with a longer name, then
nothing is stored under the requested one, and nothing is deleted. -/
theorem tolerant_deleteNewest (ledger : Ledger) (worker : Int) (name : String) :
    ledger.Tolerant name (Vault.deleteNewest worker name) := by
  obtain ⟨longer, whole, _⟩ := ledger.entries_widened name true
  rw [entries_exact] at whole
  cases stack : ledger.history name with
  | cons newest older =>
    rw [stack, List.map_cons, List.cons_append] at whole
    refine tolerant_of_same ?_ ?_
    · rw [entries_exact, stack]
      have stored : ∃ version ∈ ledger.history name, version.id = newest.id :=
        ⟨newest, stack ▸ .head _, rfl⟩
      exact (Program.Only.ask (.delete worker (.inr stored))).bind fun _ => .note _ _ _
    · rw [whole, entries_exact, stack]
      rfl
  | nil =>
    refine ⟨worker, true, _, rfl, ?_, ?_⟩
    · split
      · exact .done ()
      · exact (Program.Only.ask (.delete worker (.inl stack))).bind fun _ => .note _ _ _
    · intro session
      rw [whole, entries_exact, stack, List.map_nil, List.nil_append]
      cases longer with
      | nil => exact ⟨rfl, rfl⟩
      | cons entry rest =>
        have missing : ledger.remove name entry.id = ledger := remove_of_missing (by simp [stack])
        exact ⟨rfl, missing⟩

/-! ### Operations -/

theorem tolerant_delete (ledger : Ledger) (worker : Int) (path : String) :
    ledger.Tolerant (Fossil.parse path).name (Vault.delete worker path) := by
  unfold Vault.delete
  simp only
  split
  · exact tolerant_purge ledger worker _
  · exact tolerant_deleteNewest ledger worker _

/-- **An operation on a name starts with a listing of it, or makes none.** -/
theorem perform_cases (vault : Vault) (ledger : Ledger) {operation : Operation}
    (touched : operation.touched = some name) :
    ledger.Tolerant name (vault.perform operation) ∨
      (vault.perform operation).Only (ledger.Follows name) := by
  cases operation with
  | inspect worker path =>
    cases touched
    exact .inl ((tolerant_inspect ledger worker path).map _)
  | delete worker path =>
    cases touched
    exact .inl ((tolerant_delete ledger worker path).map _)
  | move worker source target =>
    cases touched
    by_cases back : source = Fossil.fossilOf target
    · rw [back, Fossil.parse_fossilOf, Vault.perform, Vault.move_back]
      exact .inl ((tolerant_resurrect ledger worker target).map _)
    · by_cases there : target = Fossil.fossilOf source ∧ Fossil.isFossil source = false
      · obtain ⟨rfl, bare⟩ := there
        rw [Fossil.parse_of_bare bare, Vault.perform, Vault.move_there worker bare]
        exact .inl ((tolerant_hide ledger worker source).map _)
      · have refused := Operation.change_refused worker back there
        refine .inr ((vault.only_perform _).mono ?_)
        rintro _ (_ | _ | made | made | made) <;>
        · rw [refused] at made
          cases made
  | upload worker path content =>
    cases touched
    refine .inr ((vault.only_perform _).mono ?_)
    rintro _ ⟨⟩
    exact .upload worker content _
  | download worker path destination =>
    cases touched
    refine .inr ((vault.only_perform _).mono ?_)
    rintro _ ⟨⟩
    exact .download worker
  | list | makeDirectory => cases touched

/-- A program that asks for no single name runs as with exact listings. -/
theorem run_widened {program : Program Remote.interface α}
    (any : program.Only fun c : Remote.Call => c.exact = false) (session : Session) (ledger : Ledger) :
    program.run (Remote.widened answer) session ledger = program.run answer session ledger :=
  any.run_congr (fun _ session ledger notExact => Remote.widened_eq answer notExact session ledger)
    session ledger

/-- **An operation comes to the same with listings by prefix**, and leaves the same versions. -/
theorem ends_widened (vault : Vault) (ledger : Ledger) (operation : Operation) (session : Session) :
    let wide := vault.step (Remote.widened answer) (session, ledger) operation
    let exact := vault.step answer (session, ledger) operation
    wide.1 = exact.1 ∧ wide.2.2 = exact.2.2 := by
  intro wide exact
  have same (any : (vault.perform operation).Only fun c : Remote.Call => c.exact = false) : wide = exact :=
    run_widened any session ledger
  cases touched : operation.touched with
  | none =>
    rw [same]
    · exact ⟨rfl, rfl⟩
    · exact (vault.only_perform operation).mono fun _ makes => makes.any touched
  | some name =>
    rcases perform_cases vault ledger touched with ⟨worker, withHidden, next, program, only, alike⟩ | only
    · obtain ⟨outcome, left⟩ := alike session
      have wide_eq : wide = (next (ledger.entries name false withHidden)).run answer session ledger := by
        show (vault.perform operation).run _ session ledger = _
        rw [program, Program.run_bind, Remote.ask, Program.run_ask]
        exact run_widened (only.mono fun _ => Follows.exact) session ledger
      have exact_eq : exact = (next (ledger.entries name true withHidden)).run answer session ledger := by
        show (vault.perform operation).run _ session ledger = _
        rw [program, Program.run_bind, Remote.ask, Program.run_ask]
        rfl
      rw [wide_eq, exact_eq]
      exact ⟨outcome, left⟩
    · rw [same (only.mono fun _ => Follows.exact)]
      exact ⟨rfl, rfl⟩

/-- All that an operation asks for with listings by prefix. -/
theorem exchanges_widened (vault : Vault) (ledger : Ledger) {operation : Operation}
    (touched : operation.touched = some name) (session : Session) :
    ∀ exchange ∈ (vault.perform operation).exchanges (Remote.widened answer) session ledger,
      ledger.Follows name exchange.call ∨
        ∃ worker withHidden, exchange.call = .list worker name true withHidden := by
  intro exchange among
  rcases perform_cases vault ledger touched with ⟨worker, withHidden, next, program, only, _⟩ | only
  · rw [program, Program.exchanges_bind, Remote.ask, Program.exchanges_ask, Program.run_ask] at among
    rcases List.mem_append.mp among with listed | later
    · exact .inr ⟨worker, withHidden, congrArg Exchange.call (List.mem_singleton.mp listed)⟩
    · exact .inl (only.exchanges_allowed _ _ _ exchange later)
  · exact .inl (only.exchanges_allowed _ _ _ exchange among)

/-- An operation leaves all names alone but the one that it touches. -/
theorem history_untouched (vault : Vault) (ledger : Ledger) {operation : Operation}
    (touched : operation.touched = some name) {other : String} (different : other ≠ name)
    (session : Session) :
    (vault.step answer (session, ledger) operation).2.2.history other = ledger.history other := by
  refine (vault.only_perform operation).run_keeps answer (·.history other = ledger.history other) ?_
    session rfl
  intro c session ledger' makes kept
  have about := makes.about touched
  cases c with
  | delete worker deleted id =>
    cases about
    exact (history_remove ledger' name id other).trans ((if_neg different).trans kept)
  | hide worker hidden =>
    cases about
    exact (history_push ledger' name none other).trans ((if_neg different).trans kept)
  | upload worker path content rate =>
    cases about
    exact (history_push ledger' name (some content) other).trans ((if_neg different).trans kept)
  | authorize | findBucket | list | download => exact kept

/-- **Listings by prefix are enough.** On a ledger that lists all names with the requested prefix, every
operation comes to the same answer or fault as on one that lists the requested name alone, and leaves the same
versions. Of a longer name nothing is read as the requested one, its versions stay, and each deletion is of a
stored version of the requested name, or the name is missing. To delete what is not stored changes nothing. -/
theorem prefix_listings_suffice (vault : Vault) (ledger : Ledger) (operation : Operation)
    (session : Session) :
    let wide := vault.step (Remote.widened answer) (session, ledger) operation
    let exact := vault.step answer (session, ledger) operation
    wide.1 = exact.1 ∧ wide.2.2 = exact.2.2 ∧
    (∀ name, operation.touched = some name →
      (∀ withHidden, stateOf name (ledger.entries name false withHidden) =
        stateOf name (ledger.entries name true withHidden)) ∧
      (∀ withHidden, Vault.doomed name (ledger.entries name false withHidden) =
        Vault.doomed name (ledger.entries name true withHidden)) ∧
      (∀ other, other ≠ name → wide.2.2.history other = ledger.history other) ∧
      ∀ exchange ∈ (vault.perform operation).exchanges (Remote.widened answer) session ledger,
        ∀ worker deleted id, exchange.call = .delete worker deleted id →
          deleted = name ∧ (ledger.history name = [] ∨ ∃ version ∈ ledger.history name, version.id = id)) ∧
    ∀ worker name id, (∀ version ∈ ledger.history name, version.id ≠ id) →
      (answer (.delete worker name id) session ledger).2.2 = ledger := by
  intro wide exact
  obtain ⟨outcome, left⟩ := ends_widened vault ledger operation session
  refine ⟨outcome, left, ?_, fun _ _ _ missing => remove_of_missing missing⟩
  intro name touched
  refine ⟨ledger.stateOf_widened name, ledger.doomed_widened name, ?_, ?_⟩
  · intro other different
    rw [left]
    exact history_untouched vault ledger touched different session
  · intro exchange among worker deleted id deletes
    rcases exchanges_widened vault ledger touched session exchange among with follows | ⟨_, _, listed⟩
    · rw [deletes] at follows
      cases follows with
      | delete _ stored => exact ⟨rfl, stored⟩
    · rw [listed] at deletes
      cases deletes

/-- The deletion of a missing name, where a longer name is stored. -/
theorem prefix_listings_suffice_of_missing :
    let ledger := (Vault.after {} answer [.upload 0 "ab" [1]] ({}, {})).2
    let wide := Vault.step {} (Remote.widened answer) ({}, ledger) (.delete 0 "a")
    let exact := Vault.step {} answer ({}, ledger) (.delete 0 "a")
    ledger.entries "a" false true ≠ [] ∧ (Operation.delete 0 "a").touched = some "a" ∧
      wide.1 = exact.1 ∧ wide.2.2 = exact.2.2 ∧ wide.2.2.history "ab" = ledger.history "ab" := by
  intro ledger wide exact
  have touched : (Operation.delete 0 "a").touched = some "a" := by decide
  obtain ⟨outcome, left, named, _⟩ := prefix_listings_suffice {} ledger (.delete 0 "a") {}
  obtain ⟨_, _, others, _⟩ := named "a" touched
  exact ⟨by decide, touched, outcome, left, others "ab" (by decide)⟩

end Ledger

end FossilVault
