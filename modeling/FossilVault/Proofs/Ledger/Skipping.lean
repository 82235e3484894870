import FossilVault.Proofs.Alike
import FossilVault.Proofs.Archive.Run
import FossilVault.Proofs.Errands
import FossilVault.Proofs.Ledger.Contract
/-
**A ledger that skips.** To a worker that shares a ledger with others it looks as if identifiers were
skipped: those that others were given between two of its calls. Nothing that the worker is told, and no
content that it leaves, depends on which they are.

* `Skipping.answer`, `Skipping.archive_lawful` — the ledger, a lawful archive;
* `Skipping.step_alike` — an operation ends alike on two of them whose contents are the same under the
  name that it touches;
* `Skipping.performAll_alike` — so does a sequence of operations, and it leaves the same contents.
-/

namespace FossilVault.Ledger

/-- The ledger after some identifiers were given to others. -/
def skip (count : Nat) (ledger : Ledger) : Ledger :=
  { ledger with issued := ledger.issued + count }

theorem Sound.skip {ledger : Ledger} (sound : ledger.Sound) (count : Nat) : (ledger.skip count).Sound where
  distinct := sound.distinct
  given name version among := by
    obtain ⟨number, low, same⟩ := sound.given name version among
    exact ⟨number, Nat.le_add_right_of_le low, same⟩

/-- A ledger, and how many identifiers it skips before each of its next calls. -/
structure Skipping where
  ledger : Ledger
  skips : List Nat := []

namespace Skipping

/-- Identifiers are skipped, then the ledger answers. -/
def answer : Handler Remote.interface Skipping := fun c session skipping =>
  let ended := Ledger.answer c session (skipping.ledger.skip (skipping.skips.headD 0))
  (ended.1, ended.2.1, ⟨ended.2.2, skipping.skips.tail⟩)

/-- A ledger that skips as a vault sees it. -/
def archive : Archive Version Skipping where
  handler := answer
  names skipping := skipping.ledger.names
  version := id
  order := id
  sound skipping := skipping.ledger.Sound
  serves _ := True
  reaches writes skipping skipping' := skipping.ledger.names.Wrote id writes skipping'.ledger.names

/-- It answers as its ledger does after the skip. -/
theorem answers {skipping : Skipping} {c : Remote.Call} {reply : Except Fault (Remote.Reply c)}
    {writes : List Write}
    (told : Ledger.archive.Answers c (skipping.ledger.skip (skipping.skips.headD 0)) reply writes) :
    archive.Answers c skipping reply writes := by
  intro session
  obtain ⟨session', ledger, answered, alike, sound, reached⟩ := told session
  refine ⟨session', ⟨ledger, skipping.skips.tail⟩, ?_, alike, sound, ?_⟩
  · have answered : Ledger.answer c session _ = (reply, session', ledger) := answered
    show answer c session skipping = _
    rw [answer, answered]
  · have reached : ledger = writes.foldl write _ := reached
    rw [reached]
    exact wrote_write writes (skipping.ledger.skip (skipping.skips.headD 0))

/-- **A ledger that skips is a lawful archive.** -/
theorem archive_lawful : archive.Lawful where
  order_void := rfl
  order_perm _ _ := .refl _
  order_head _ _ := rfl
  distinct sound := sound.distinct
  wrote reached := reached
  stay _ := .none _
  trans before after := before.trans after
  list sound _ served stem exact withHidden :=
    answers (Ledger.archive_lawful.list (Sound.skip sound _) served stem exact withHidden)
  delete sound _ served name id :=
    answers (Ledger.archive_lawful.delete (Sound.skip sound _) served name id)
  hide sound _ served name := by
    obtain ⟨marker, told⟩ := Ledger.archive_lawful.hide (Sound.skip sound _) served name
    exact ⟨marker, answers told⟩
  upload sound _ served name content rate :=
    answers (Ledger.archive_lawful.upload (Sound.skip sound _) served name content rate)
  download {skipping} sound worker served name := by
    have opens : Ledger.archive.Opens worker name (skipping.ledger.skip (skipping.skips.headD 0)) :=
      Ledger.archive_lawful.download (Sound.skip sound _) served name
    have same : Ledger.archive.stacked (skipping.ledger.skip (skipping.skips.headD 0)) =
        archive.stacked skipping := rfl
    unfold Archive.Opens at opens ⊢
    rw [same] at opens
    split at opens
    · obtain ⟨opened, whole, steady, told⟩ := opens
      exact ⟨opened, whole, steady, answers told⟩
    · obtain ⟨fault, service, told⟩ := opens
      exact ⟨fault, service, answers told⟩

end Skipping

/-! ### The same contents -/

/-- Two ledgers have the same contents under a name. -/
def Same (name : String) (first second : Ledger) : Prop :=
  (first.history name).map Version.content = (second.history name).map Version.content

/-- A name is opened to the same stream on both, or not found on either. -/
theorem Same.opened {name : String} {first second : Ledger} (same : Same name first second) :
    (∃ source details details', first.opened name = .ok ⟨source, details⟩ ∧
      second.opened name = .ok ⟨source, details'⟩) ∨
    ∃ fault, first.opened name = .error fault ∧ second.opened name = .error fault := by
  unfold Same at same
  unfold Ledger.opened
  cases stack : first.history name with
  | nil =>
    rw [stack] at same
    rw [List.map_eq_nil_iff.mp same.symm]
    exact .inr ⟨_, rfl, rfl⟩
  | cons top older =>
    rw [stack] at same
    obtain ⟨top', older', stack', holds, _⟩ := List.map_eq_cons_iff.mp same.symm
    obtain ⟨id, content⟩ := top
    obtain ⟨id', content'⟩ := top'
    have holds : content' = content := holds
    subst holds
    rw [stack']
    cases content' with
    | none => exact .inr ⟨_, rfl, rfl⟩
    | some content => exact .inl ⟨{ content }, _, _, rfl, rfl⟩

namespace Skipping

variable (vault : Vault) {skipping skipping' : Skipping} {session session' : Session}

/-- **A fetch ends alike on two ledgers with the same contents.** -/
theorem fetch_alike (alike : session.Alike session') (worker : Int) {path : String}
    (same : Same path skipping.ledger skipping'.ledger) :
    Program.EndAlike
      ((Remote.ask (.download worker path) >>= fun opened =>
        vault.receive worker (Remote.Opened.source opened)).run answer session skipping)
      ((Remote.ask (.download worker path) >>= fun opened =>
        vault.receive worker (Remote.Opened.source opened)).run answer session' skipping') := by
  have told (skipping : Skipping) (session : Session) :
      answer (.download worker path) session skipping = (skipping.ledger.opened path, session,
        ⟨skipping.ledger.skip (skipping.skips.headD 0), skipping.skips.tail⟩) := rfl
  rw [Program.run_bind, Program.run_bind, Remote.run_ask, Remote.run_ask, told, told]
  rcases same.opened with ⟨source, details, details', found, found'⟩ | ⟨fault, missing, missing'⟩
  · rw [found, found']
    exact vault.receive_alike answer answer worker source alike _ _
  · rw [missing, missing']
    exact ⟨rfl, alike⟩

theorem stacked_of_same {name : String} (same : Same name skipping.ledger skipping'.ledger) :
    (archive.stacked skipping).history name = (archive.stacked skipping').history name := by
  rw [Archive.stacked, Archive.stacked, Catalog.history_contents, Catalog.history_contents]
  exact same

/-- **An operation ends alike on two ledgers** whose contents are the same under the name that it
touches. -/
theorem step_alike (sound : skipping.ledger.Sound) (sound' : skipping'.ledger.Sound)
    (alike : session.Alike session') {operation : Operation} {name : String}
    (touched : operation.touched = some name) (same : Same name skipping.ledger skipping'.ledger) :
    Program.EndAlike (vault.step answer (session, skipping) operation)
      (vault.step answer (session', skipping') operation) := by
  have told := archive_lawful.settles_compositional
  cases operation with
  | upload worker path content =>
    have sends {skipping : Skipping} (sound : skipping.ledger.Sound) :
        archive.Settles (Remote.ask (.upload worker path content
          (share vault.uploadLimit vault.workers))) skipping (.ok ()) [.push path (some content)] :=
      told.ask sound (archive_lawful.upload sound trivial path content _)
    have sent := (sends sound).endAlike (sends sound') alike.readClock.2
    exact (Program.EndAlike.timed "upload_file" worker path alike sent).followed fun _ => Answer.done
  | download worker path destination =>
    obtain rfl : path = name := Option.some.inj touched
    have ready : Session.Alike { session with sink := destination } { session' with sink := destination } :=
      ⟨alike.clock, rfl⟩
    have fetched := Program.EndAlike.timed "download_file" worker path ready
      (fetch_alike vault ready.readClock.2 worker same)
    exact fetched.followed fun _ => Answer.done
  | move worker source target =>
    exact ((told.ends_move archive_lawful sound trivial source target).followed _).endAlike
      ((told.ends_move archive_lawful sound' trivial source target).followed _) alike
  | delete worker path =>
    exact ((told.ends_delete archive_lawful sound trivial path).followed _).endAlike
      ((told.ends_delete archive_lawful sound' trivial path).followed _) alike
  | inspect worker path =>
    obtain rfl : (Fossil.parse path).name = name := Option.some.inj touched
    have shown : Stacks.info path (archive.stacked skipping) =
        Stacks.info path (archive.stacked skipping') := by
      rw [Stacks.info, Stacks.info, stacked_of_same same]
    have looks {skipping : Skipping} (sound : skipping.ledger.Sound) :
        archive.Settles (Vault.inspect worker path) skipping
          (.ok (Stacks.info path (archive.stacked skipping))) [] :=
      told.ends_inspect archive_lawful sound trivial path
    have looked := looks sound
    rw [shown] at looked
    exact (looked.followed Answer.info).endAlike ((looks sound').followed Answer.info) alike
  | list | makeDirectory => cases touched

/-- **An operation leaves the same contents on two ledgers** that had the same ones. -/
theorem step_same (session session' : Session) (sound : skipping.ledger.Sound)
    (sound' : skipping'.ledger.Sound)
    {names : String → Prop} (same : ∀ name, names name → Same name skipping.ledger skipping'.ledger)
    {operation : Operation} (within : ∃ name, operation.touched = some name ∧ names name) :
    (vault.step answer (session, skipping) operation).2.2.ledger.Sound ∧
      (vault.step answer (session', skipping') operation).2.2.ledger.Sound ∧
      ∀ name, names name → Same name (vault.step answer (session, skipping) operation).2.2.ledger
        (vault.step answer (session', skipping') operation).2.2.ledger := by
  have fits (skipping : Skipping) : archive.Fits operation skipping := ⟨trivial, fun _ _ => rfl⟩
  obtain ⟨last, next⟩ := archive_lawful.step_next sound vault (fits skipping) session
  obtain ⟨last', next'⟩ := archive_lawful.step_next sound' vault (fits skipping') session'
  refine ⟨last, last', ?_⟩
  intro name inside
  have agreed : (archive.stacked (vault.step archive.handler (session, skipping) operation).2.2).history
      name = (archive.stacked (vault.step archive.handler (session', skipping') operation).2.2).history
        name := by
    rw [next, next']
    unfold Stacks.next
    cases made : operation.change with
    | none => exact stacked_of_same (same name inside)
    | some turned =>
      obtain ⟨path, change⟩ := turned
      obtain ⟨touched, touches, held⟩ := within
      obtain rfl := Option.some.inj ((Operation.touched_of_change made).symm.trans touches)
      simp only [Catalog.history_turn, stacked_of_same (same name inside), stacked_of_same (same path held)]
  rw [Archive.stacked, Archive.stacked, Catalog.history_contents, Catalog.history_contents] at agreed
  exact agreed

/-- **A sequence of operations ends alike** on two ledgers whose contents are the same under the names that
they touch, and leaves the same contents there. -/
theorem performAll_alike {names : String → Prop} {operations : List Operation}
    (within : ∀ operation ∈ operations, ∃ name, operation.touched = some name ∧ names name)
    (sound : skipping.ledger.Sound) (sound' : skipping'.ledger.Sound) (alike : session.Alike session')
    (same : ∀ name, names name → Same name skipping.ledger skipping'.ledger) :
    let ended := (vault.performAll operations).run answer session skipping
    let ended' := (vault.performAll operations).run answer session' skipping'
    ended.1 = ended'.1 ∧ ∀ name, names name → Same name ended.2.2.ledger ended'.2.2.ledger := by
  induction operations generalizing session session' skipping skipping' with
  | nil => exact ⟨rfl, same⟩
  | cons operation rest ih =>
    obtain ⟨name, touched, inside⟩ := within operation (.head _)
    obtain ⟨outcome, after⟩ := step_alike vault sound sound' alike touched (same name inside)
    obtain ⟨last, last', left⟩ :=
      step_same vault session session' sound sound' same ⟨name, touched, inside⟩
    obtain ⟨reports, contents⟩ :=
      ih (fun later among => within later (.tail _ among)) last last' after left
    intro ended ended'
    simp only [ended, ended', Vault.run_performAll]
    refine ⟨?_, contents⟩
    have received : (vault.step answer (session, skipping) operation).2.1.sink.data =
        (vault.step answer (session', skipping') operation).2.1.sink.data := by
      rw [after.sink]
    rw [reports, outcome, received]

end Skipping

end FossilVault.Ledger
