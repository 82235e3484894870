import FossilVault.Proofs.Bucket.Keys
import FossilVault.Proofs.Console.Lines
/-
**The keys are never seen.** Two users run the same command lines with settings that differ in their keys
alone. What is printed, how the commands end, what is logged and what is asked of the service is the same for
both, whatever fails on the way: a key goes into the making of a client and nowhere else.

* `Line.ButKeys` — command lines that ask for the same with settings that differ in their keys alone;
* `paired_shows` — one command line shows no key;
* `keys_unseen` — and neither do any number of them, when any requests fail.
-/

namespace FossilVault.Console

variable {ω : Type}

/-! ### What a command line shows -/

/-- What a command line shows: how it ends with all that it prints, and the level that the log is set to. -/
structure Shown where
  outcome : Outcome
  level : Option LogLevel
  deriving DecidableEq

/-- What a command line shows, with the session that it leaves, in which its log stands and what it
downloaded. -/
def Line.shows (h : Handler Bucket.interface ω) (line : Line) (now : Session × ω) : Shown × Session × ω :=
  let ran := line.run h now
  (⟨ran.1.outcome, ran.1.level⟩, ran.2)

/-- Runs command lines one after the other: what each of them shows, with the session that it leaves, and what
is left in the end. -/
def showAll (h : Handler Bucket.interface ω) :
    List Line → Session × ω → List (Shown × Session) × Session × ω
  | [], now => ([], now)
  | line :: rest, now =>
    let shows := line.shows h now
    let later := showAll h rest shows.2
    ((shows.1, shows.2.1) :: later.1, later.2)

/-- Two command lines that ask for the same, down to the content that they upload, where the same files stand,
with settings that differ in their keys alone. -/
structure Line.ButKeys (line line' : Line) : Prop where
  words : line.words = line'.words
  look : line.surroundings.directory.look = line'.surroundings.directory.look
  command : ∀ invocation, Invocation.parse line.words = .ok invocation →
    invocation.command line.surroundings.input line.surroundings.directory =
      invocation.command line'.surroundings.input line'.surroundings.directory
  settings : ∃ settings settings', line.surroundings.settings = .ok settings ∧
    line'.surroundings.settings = .ok settings' ∧ settings.ButKeys settings'

/-! ### One command line -/

namespace Task

/-- What a task shows does not depend on the directory around it. -/
theorem aftermath_congr (task : Task) (level : LogLevel) (directory directory' : Directory)
    (ended : Except Fault Report) (sink : Sink) :
    (task.aftermath level directory ended sink).outcome =
        (task.aftermath level directory' ended sink).outcome ∧
      (task.aftermath level directory ended sink).level =
        (task.aftermath level directory' ended sink).level := by
  unfold aftermath
  split <;> exact ⟨rfl, rfl⟩

/-- A download goes to the same destination where the same files stand. -/
theorem sink_congr (task : Task) {directory directory' : Directory}
    (look : directory.look = directory'.look) : task.sink directory = task.sink directory' := by
  unfold sink
  split
  · rw [Directory.target, Directory.target, look]
  · rfl

end Task

section Paired

variable {h : Handler Bucket.interface ω} {related : ω → ω → Prop}
  (indifferent : Bucket.Indifferent h related)

include indifferent

/-- A task is done alike with settings that differ in their keys alone. -/
theorem paired_work {settings settings' : Settings} (alike : settings.ButKeys settings') (task : Task)
    (session : Session) {world world' : ω} (same : related world world') :
    Paired related (work settings task h session world) (work settings' task h session world') := by
  have connected := indifferent.attach alike session same
  unfold work
  generalize Bucket.attach settings h session world = attached at connected ⊢
  generalize Bucket.attach settings' h session world' = attached' at connected ⊢
  obtain ⟨outcome, left, world⟩ := attached
  obtain ⟨_, _, world'⟩ := attached'
  obtain ⟨rfl, rfl, same⟩ := connected
  cases outcome with
  | error fault => exact ⟨rfl, rfl, same⟩
  | ok attached =>
    have done := Program.InPairs.refl indifferent.remote (task.perform attached.vault) left
      (attached.connection, world) (attached.connection, world') ⟨rfl, same⟩
    exact ⟨done.outcome, done.session, done.world.world⟩

/-- **One command line shows no key.** -/
theorem paired_shows {line line' : Line} (alike : line.ButKeys line') (session : Session) {world world' : ω}
    (same : related world world') :
    Paired related (line.shows h (session, world)) (line'.shows h (session, world')) := by
  obtain ⟨settings, settings', settled, settled', keys⟩ := alike.settings
  have level : settings.logLevel = settings'.logLevel := by
    obtain ⟨_, _⟩ := keys
    rfl
  unfold Line.shows Line.run Console.run
  rw [← alike.words]
  cases parsed : Invocation.parse line.words with
  | error unparsed => exact ⟨rfl, rfl, same⟩
  | ok invocation =>
    simp only [settled, settled', alike.command invocation parsed, ← level]
    cases invocation.command line'.surroundings.input line'.surroundings.directory with
    | error unparsed => exact ⟨rfl, rfl, same⟩
    | ok command =>
      cases command with
      | showConfig =>
        have lines : settingsLines settings = settingsLines settings' := by
          rw [settingsLines, settingsLines, keys.environment]
        rw [lines]
        exact ⟨rfl, rfl, same⟩
      | capabilities => exact ⟨rfl, rfl, same⟩
      | task task =>
        have done := paired_work indifferent keys task
          (freshSession session (task.sink line'.surroundings.directory)) same
        simp only [task.sink_congr alike.look]
        generalize work settings task h _ world = ended at done ⊢
        generalize work settings' task h _ world' = ended' at done ⊢
        obtain ⟨outcome, left, world⟩ := ended
        obtain ⟨_, _, world'⟩ := ended'
        obtain ⟨rfl, rfl, same⟩ := done
        obtain ⟨shown, set⟩ := task.aftermath_congr settings.logLevel line.surroundings.directory
          line'.surroundings.directory outcome left.sink
        exact ⟨by rw [shown, set], rfl, same⟩

/-- Command lines that are run one after the other show no key. -/
theorem paired_showAll {pairs : List (Line × Line)} (alike : ∀ pair ∈ pairs, pair.1.ButKeys pair.2)
    (session : Session) {world world' : ω} (same : related world world') :
    Paired related (showAll h (pairs.map Prod.fst) (session, world))
      (showAll h (pairs.map Prod.snd) (session, world')) := by
  induction pairs generalizing session world world' with
  | nil => exact ⟨rfl, rfl, same⟩
  | cons pair rest ih =>
    have shows := paired_shows indifferent (alike pair (.head _)) session same
    simp only [List.map_cons, showAll]
    generalize pair.1.shows h (session, world) = ended at shows ⊢
    generalize pair.2.shows h (session, world') = ended' at shows ⊢
    obtain ⟨shown, left, world⟩ := ended
    obtain ⟨_, _, world'⟩ := ended'
    obtain ⟨rfl, rfl, same⟩ := shows
    have later := ih (fun other among => alike other (.tail _ among)) left same
    exact ⟨congrArg (List.cons _) later.outcome, later.session, later.world⟩

end Paired

/-! ### Any command lines, when any requests fail -/

/-- **The keys are never seen.** Two users run the same command lines with settings that differ in their keys
alone, on a service that does not look at keys, and the same requests fail for both. Then the commands end
alike, print the same, log the same and leave the same session; the settings show as the same variables; and
the same requests are made, but for the keys that clients are made with. -/
theorem keys_unseen {h : Handler Bucket.interface ω} {related : ω → ω → Prop}
    (indifferent : Bucket.Indifferent h related) (plan : Bucket.Action → Nat → Option Fault)
    {pairs : List (Line × Line)} (alike : ∀ pair ∈ pairs, pair.1.ButKeys pair.2) (session : Session)
    {world world' : ω} (same : related world world') :
    let failing := h.watched Bucket.Request.action plan
    let ended := showAll failing (pairs.map Prod.fst) (session, ⟨world, []⟩)
    let ended' := showAll failing (pairs.map Prod.snd) (session, ⟨world', []⟩)
    let requests : List Bucket.Request := ended.2.2.calls
    let requests' : List Bucket.Request := ended'.2.2.calls
    ended.1 = ended'.1 ∧
      (∀ pair ∈ pairs, ∃ settings settings', pair.1.surroundings.settings = .ok settings ∧
        pair.2.surroundings.settings = .ok settings' ∧ settings.environment = settings'.environment) ∧
      requests.filter (·.action != .createClient) = requests'.filter (·.action != .createClient) ∧
      requests.map Bucket.Request.masked = requests'.map Bucket.Request.masked := by
  intro failing ended ended' requests requests'
  have shows : Paired _ ended ended' := paired_showAll (indifferent.watched plan) alike session ⟨same, rfl⟩
  have asked : requests.map Bucket.Request.masked = requests'.map Bucket.Request.masked := shows.world.calls
  refine ⟨shows.outcome, ?_, Bucket.filter_of_masked asked, asked⟩
  intro pair among
  obtain ⟨settings, settings', settled, settled', keys⟩ := (alike pair among).settings
  exact ⟨settings, settings', settled, settled', keys.environment⟩

/-- A file is stored and its deletion fails, and then there is no client to look at it with: neither of two
users shows the other's keys, and their clients are made with different ones. -/
theorem keys_unseen_of_failed_client :
    let environment (access secret : String) : List (String × String) :=
      [("AWS_ACCESS_KEY_ID", access), ("AWS_SECRET_ACCESS_KEY", secret)]
    let line (access secret : String) (words : List String) : Line :=
      ⟨{ environment := environment access secret, input := [97] }, words⟩
    let pairs := [["show-config"], ["put", "-", "a"], ["rm", "a"], ["stat", "a"]].map fun words =>
      (line "mine" "hidden" words, line "yours" "unknown" words)
    let plan (action : Bucket.Action) (number : Nat) : Option Fault :=
      if action = .deleteObject then some (.unreachable "https://s3")
      else if action = .createClient ∧ number = 3 then some .noCredentials
      else none
    let service : Bucket.Service := { buckets := [("fossil-storage", {})] }
    let failing := Bucket.Service.answer.watched Bucket.Request.action plan
    let ended := showAll failing (pairs.map Prod.fst) ({}, ⟨service, []⟩)
    let ended' := showAll failing (pairs.map Prod.snd) ({}, ⟨service, []⟩)
    let requests : List Bucket.Request := ended.2.2.calls
    let requests' : List Bucket.Request := ended'.2.2.calls
    ended.1 = ended'.1 ∧
      ended.1.map (·.1.outcome.status) = [0, 0, 1, 1] ∧
      requests.map Bucket.Request.masked = requests'.map Bucket.Request.masked ∧
      ended.2.2.world.clients ≠ ended'.2.2.world.clients := by
  intro environment line pairs plan service
  have settled (access secret : String) (settings : Settings)
      (loaded : ({ environment := environment access secret, input := [97] } :
        Surroundings).settings.toOption = some settings) :
      ({ environment := environment access secret, input := [97] } : Surroundings).settings =
        .ok settings := by
    cases ended : ({ environment := environment access secret, input := [97] } : Surroundings).settings with
    | ok _ => simpa [ended, Except.toOption] using loaded
    | error _ => simp [ended, Except.toOption] at loaded
  have mine := settled "mine" "hidden" { accessKey := some "mine", secretKey := some "hidden" }
    (by decide +kernel)
  have yours := settled "yours" "unknown" { accessKey := some "yours", secretKey := some "unknown" }
    (by decide +kernel)
  have keys : Settings.ButKeys { accessKey := some "mine", secretKey := some "hidden" }
      { accessKey := some "yours", secretKey := some "unknown" } :=
    .rekeyed (.inr (by decide)) (.inr (by decide))
  have alike : ∀ pair ∈ pairs, pair.1.ButKeys pair.2 := by
    intro pair among
    obtain ⟨words, -, rfl⟩ := List.mem_map.mp among
    exact ⟨rfl, rfl, fun _ _ => rfl, _, _, mine, yours, keys⟩
  obtain ⟨shown, -, -, asked⟩ :=
    keys_unseen Bucket.Service.indifferent plan alike {} (show service.masked = service.masked from rfl)
  exact ⟨shown, by decide +kernel, asked, by decide +kernel⟩

end FossilVault.Console
