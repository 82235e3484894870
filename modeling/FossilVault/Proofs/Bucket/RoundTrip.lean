import FossilVault.Proofs.Bucket.Paced
import FossilVault.Proofs.Failures
import FossilVault.Proofs.Tokens
/-
**There and back.** What is uploaded to a bucket is what a download gives, whatever the limits of both
directions, the number of workers and the requests that the limiters turn down: a body and a stream are
cut into pieces that depend on all of these, and no byte is lost, repeated or charged twice.

* `Provider.Direct` — a service that stores what one read of a body gives, and whose streams give what
  they are asked for;
* `Provider.sends`, `Provider.opens` — a call of an upload, and one of a download;
* `Provider.round_trip` — an upload and the download after it, with the tokens of each;
* `Paced.provider_direct` — the service in memory is such a service.
-/

namespace FossilVault

/-- A transfer ends as its body does, by a clock that reads doubles, and is charged what that is. -/
theorem run_timed_steady {ω β : Type} {h : Handler Remote.interface ω}
    {body : Program Remote.interface β} {outcome : Except Fault β} {session ended : Session}
    {world world' : ω} (name : String) (worker : Int) (path : String) (calm : isInterrupted outcome = false)
    (steady : session.desk.Steady) (clock : ended.clock = session.readClock.2.clock)
    (ran : body.run h session.readClock.2 world = (outcome, ended, world')) :
    ∃ last, (Program.timed name worker path body).run h session world = (outcome, last, world') ∧
      ended.readClock.2.Alike last ∧ last.granted = ended.granted := by
  obtain ⟨last, run, alike⟩ := run_timed_calm name worker path calm ran
  have charged := Program.observed_timed Session.granted readClock_granted (fun _ _ _ _ => rfl) h
    name worker path body session world
  rw [run, ran] at charged
  have looked : session.readClock.2.desk.Steady := by
    rw [readClock_desk]
    exact steady.later
  have at_end : ended.desk.Steady := looked.of_clock clock
  obtain ⟨seconds, started⟩ := Program.steady_reading steady
  obtain ⟨seconds', finished⟩ := Program.steady_reading at_end
  refine ⟨last, ?_, alike, charged⟩
  rw [run, Program.timedOutcome, calm, started, finished]
  rfl

namespace Vault

/-- **What an upload does besides its call**, by a clock that reads doubles: nothing that is charged. -/
theorem step_upload {ω : Type} (vault : Vault) (h : Handler Remote.interface ω) {worker : Int}
    {path : String} {content : Bytes} {session ended : Session} {world world' : ω}
    (steady : session.desk.Steady)
    (answered : h (.upload worker path content (share vault.uploadLimit vault.workers))
      session.readClock.2 world = (.ok (), ended, world'))
    (alike : session.readClock.2.Alike ended) :
    ∃ last, vault.step h (session, world) (.upload worker path content) = (.ok .done, last, world') ∧
      last.desk.Steady ∧ last.granted = ended.granted := by
  have ran : (Remote.ask (.upload worker path content (share vault.uploadLimit vault.workers))).run h
      session.readClock.2 world = (.ok (), ended, world') := by
    rw [Remote.run_ask, answered]
  obtain ⟨last, run, after, charged⟩ :=
    run_timed_steady "upload_file" worker path rfl steady alike.clock ran
  refine ⟨last, ?_, ?_, charged⟩
  · rw [step, perform, upload, Program.run_bind, run]
    rfl
  · rw [after.desk, readClock_desk, alike.desk, readClock_desk]
    exact steady.later.later

/-- **What a download does besides its call**, by a clock that reads doubles: it hands on the stream that
was opened, and is charged for it. -/
theorem step_download {ω : Type} (vault : Vault) (h : Handler Remote.interface ω) {worker : Int}
    {path : String} {destination : Sink} {session : Session} {world world' : ω} {opened : Remote.Opened}
    (steady : session.desk.Steady) (isOpen : destination.Open) (direct : opened.source.Direct)
    (answered : ∀ session, h (.download worker path) session world = (.ok opened, session, world')) :
    ∃ last, vault.step h (session, world) (.download worker path destination) =
        (.ok .done, last, world') ∧
      last.sink.data = destination.data ++ opened.source.content ∧
      last.granted = session.granted + if 0 < share vault.downloadLimit vault.workers then
        tokensFor opened.source.content.length else 0 := by
  let ready : Session := { session with sink := destination }
  let started : Session := { ready.readClock.2 with opened := ready.readClock.2.opened + 1 }
  have sink : started.sink = destination := readClock_sink ready
  obtain ⟨count, rest, copied, copies, clock, data⟩ :=
    copy_steady (share vault.downloadLimit vault.workers) (downloadChannel worker) opened.source started
      direct.steady (sink ▸ isOpen)
  let ended : Session := { copied with released := copied.released + 1 }
  have ran : (Remote.ask (.download worker path) >>= fun opened =>
      vault.receive worker (Remote.Opened.source opened)).run h ready.readClock.2 world =
        (.ok (), ended, world') := by
    rw [Program.run_bind, Remote.run_ask, answered]
    simp only [receive, Program.run_bind, Program.run_modify, Program.run_attempt, Program.run_within,
      Program.run_ofExcept, copies, started, ended]
    rfl
  have at_ready : ready.desk.Steady := steady.of_clock rfl
  have stays : ended.clock = ready.readClock.2.clock := clock
  obtain ⟨last, run, after, charged⟩ :=
    run_timed_steady "download_file" worker path rfl at_ready stays ran
  refine ⟨last, ?_, ?_, ?_⟩
  · rw [step, perform, Program.run_bind, Program.run_modify]
    simp only [Program.run_bind]
    rw [show { session with sink := destination } = ready from rfl, download, run]
    rfl
  · have received := data
    rw [sink] at received
    rw [after.sink, readClock_sink]
    exact received
  · have granted := copy_granted (share vault.downloadLimit vault.workers) (downloadChannel worker)
      direct started (congrArg Prod.fst copies)
    rw [copies] at granted
    have before : started.granted = session.granted := readClock_granted ready
    rw [charged, ← before]
    exact granted

end Vault

theorem share_pos_iff {budget : Int} (workers : Int) : 0 < share budget workers ↔ 0 < budget := by
  constructor
  · intro limited
    refine Int.not_le.mp fun unlimited => ?_
    rw [share_nonpos unlimited] at limited
    exact Int.lt_irrefl 0 limited
  · intro limited
    have := share_pos limited workers
    omega

end FossilVault

namespace FossilVault.Bucket

namespace Service

/-- A body is read by one read, which gives its whole content and is charged its KBs if there is a
limit. -/
theorem run_payload_read {ω : Type} (h : Handler interface ω) (worker : Int) (content : Bytes)
    (rate : Int) (session : Session) (world : ω) :
    ∃ payload ready read, (Connection.payload worker content rate).run h session world =
        (.ok payload, ready, world) ∧ contentOf payload ready = (.ok content, read) ∧
      session.Alike read ∧
      read.granted = session.granted + if 0 < rate then tokensFor content.length else 0 := by
  unfold Connection.payload
  by_cases limited : 0 < rate
  · rw [if_pos limited, if_pos limited]
    let made := Body.make content rate (Vault.uploadChannel worker) session
    obtain ⟨body, read, whole, alike⟩ :=
      Body.read_make limited content (Vault.uploadChannel worker) session made.2
    have charged := Body.read_make_granted limited content (Vault.uploadChannel worker) session made.2
    have before := throttleFor_granted rate (Vault.uploadChannel worker) session
    rw [whole] at charged
    refine ⟨_, made.2, read, Program.run_within _ _ session world, ?_, ?_, ?_⟩
    · rw [contentOf, whole]
    · exact (throttleFor_alike rate _ session).trans alike
    · rw [← before]
      exact charged
  · rw [if_neg limited, if_neg limited]
    exact ⟨_, session, session, rfl, rfl, .refl session, rfl⟩

end Service

namespace Provider

variable {ω : Type} {provider : Provider ω} {world : ω}

/-- A service that reads the body of a put by one read and stores what that gives, and that opens the
newest content of a name as a stream that gives as many bytes as it is asked for. -/
structure Direct (provider : Provider ω) : Prop where
  put {world : ω} (sound : provider.sound world) (client : Nat) (name : String) {payload : Payload}
    {content : Bytes} {session read : Session}
    (gives : Service.contentOf payload session = (.ok content, read)) (contentType : String) :
    ∃ world', provider.handler
        (.putObject client provider.bucket name payload content.length contentType) session world =
          (.ok (), read, world') ∧
      provider.Follows (some (.push name (some content))) world world'
  get {world : ω} (sound : provider.sound world) (client : Nat) {name : String} {stored : Stored}
    {older : List Stored} (newest : (provider.names world).history name = stored :: older)
    {content : Bytes} (held : stored.content = some content) :
    ∃ object source world', object.source = some source ∧ source.content = content ∧ source.Direct ∧
      provider.Follows none world world' ∧
      ∀ session, provider.handler (.getObject client provider.bucket name) session world =
        (.ok object, session, world')

section Serving

variable (direct : provider.Direct) {connection : Connection}
  (chosen : connection.bucket = some provider.bucket) (sound : provider.sound world) {worker : Int}
  (served : 0 ≤ worker ∧ worker < connection.pool.size)

include direct chosen sound served

/-- **The call of an upload** stores its content and is charged for it. -/
theorem sends (name : String) (content : Bytes) (rate : Int) (session : Session) :
    ∃ ended world', Connection.remote provider.handler (.upload worker name content rate) session
        (connection, world) = (.ok (), ended, (connection, world')) ∧
      session.Alike ended ∧
      ended.granted = session.granted + (if 0 < rate then tokensFor content.length else 0) ∧
      provider.Follows (some (.push name (some content))) world world' := by
  obtain ⟨payload, ready, read, made, gives, alike, charged⟩ :=
    Service.run_payload_read provider.handler worker content rate session world
  obtain ⟨world', answered, follows⟩ := direct.put sound
    (connection.pool.clients.getD worker.toNat 0) name gives "application/octet-stream"
  obtain ⟨message, run⟩ : ∃ message,
      (connection.upload worker name content rate).run provider.handler session world =
        (.ok (), read.note .debug .bucket message, world') := ⟨_, by
    rw [Connection.upload, Program.run_bind, made]
    refine (Program.run_bind _ _ _ _ _).trans ?_
    rw [Program.run_ofExcept, target_served chosen served]
    exact run_answered answered _⟩
  exact ⟨_, world', run_remote run, alike.trans (.note _ _ message read), charged, follows⟩

/-- **The call of a download** opens the newest content. -/
theorem opens {name : String} {stored : Stored} {older : List Stored}
    (newest : (provider.names world).history name = stored :: older) {content : Bytes}
    (held : stored.content = some content) :
    ∃ (opened : Remote.Opened) (world' : ω), opened.source.content = content ∧
      opened.source.Direct ∧ provider.Follows none world world' ∧
      ∀ session, Connection.remote provider.handler (.download worker name) session (connection, world) =
        (.ok opened, session, (connection, world')) := by
  obtain ⟨object, source, world', body, whole, gives, follows, answered⟩ :=
    direct.get sound (connection.pool.clients.getD worker.toNat 0) newest held
  refine ⟨⟨source, Connection.details object⟩, world', whole, gives, follows, ?_⟩
  intro session
  have run : (connection.download worker name).run provider.handler session world =
      (.ok ⟨source, Connection.details object⟩, session, world') := by
    rw [Connection.download, Program.run_bind, Program.run_ofExcept, target_served chosen served]
    refine (run_answered (answered session) _).trans ?_
    rw [Program.run_bind, Program.run_ofExcept]
    refine (Program.run_bind _ _ _ _ _).trans ?_
    rw [body]
    rfl
  exact run_remote run

/-- **What is uploaded is what a download gives**, whatever the limits and however often the limiters
turn a request down. The new version goes on top of its name with the size of its content, and each
direction is charged the KBs of the content if it has a limit, and nothing if it has none. -/
theorem round_trip (path : String) (content : Bytes) (vault : Vault) (downloadLimit uploadLimit : Int)
    {session : Session} (steady : session.desk.Steady) {destination : Sink} (isOpen : destination.Open) :
    let limited := vault.limit downloadLimit uploadLimit
    let sent := limited.step (Connection.remote provider.handler) (session, (connection, world))
      (.upload worker path content)
    let got := limited.step (Connection.remote provider.handler) sent.2
      (.download worker path destination)
    sent.1 = .ok .done ∧ got.1 = .ok .done ∧ got.2.1.sink.data = destination.data ++ content ∧
    (∃ stored : Stored, (provider.names sent.2.2.2).history path =
        stored :: (provider.names world).history path ∧
      stored.content = some content ∧ stored.size = content.length) ∧
    sent.2.1.granted = session.granted + (if 0 < uploadLimit then tokensFor content.length else 0) ∧
    got.2.1.granted =
      sent.2.1.granted + if 0 < downloadLimit then tokensFor content.length else 0 := by
  intro limited sent got
  obtain ⟨ended, world', answered, alike, charged, follows⟩ := sends direct chosen sound served path
    content (share uploadLimit vault.workers) session.readClock.2
  obtain ⟨last, stepped, steady', granted⟩ :=
    limited.step_upload (Connection.remote provider.handler) steady answered alike
  obtain ⟨sound', _, id, _, names⟩ := follows
  have history : (provider.names world').history path =
      ⟨id, provider.clock world', some content⟩ :: (provider.names world).history path := by
    rw [names, Catalog.history_push, if_pos rfl]
  obtain ⟨opened, world'', whole, gives, _, answered'⟩ :=
    opens direct chosen sound' served history rfl
  obtain ⟨last', stepped', data, granted'⟩ :=
    limited.step_download (Connection.remote provider.handler) steady' isOpen gives answered'
  have sent_eq : sent = (.ok .done, last, (connection, world')) := stepped
  have got_eq : got = (.ok .done, last', (connection, world'')) := by
    show limited.step _ sent.2 _ = _
    rw [sent_eq]
    exact stepped'
  rw [got_eq, sent_eq]
  refine ⟨rfl, rfl, ?_, ⟨_, history, rfl, rfl⟩, ?_, ?_⟩
  · rw [data, whole]
  · rw [granted, charged, readClock_granted]
    simp only [share_pos_iff]
  · rw [granted', whole]
    simp only [share_pos_iff]
    rfl

end Serving

end Provider

open Paced in
/-- **The service in memory reads a body once and opens streams that give what they are asked for.** -/
theorem Paced.provider_direct (bucket : String) : (provider bucket).Direct where
  put {paced} sound client name payload content session read gives contentType := by
    have answered : Service.answer
        (.putObject client bucket name payload content.length contentType) session paced.ready =
          (.ok (), read, paced.ready.push bucket name (some content)) := by
      rw [Service.answer, gives]
    exact ⟨_, answer_of_ready answered, follows_push sound name (some content)⟩
  get {paced} sound client name stored older newest content held := by
    have stack : paced.ready.history bucket name = stored :: older := newest
    let object : Object := {
      source := paced.ready.give .object .body { content }
      id := paced.ready.give .object .id stored.id
      length := paced.ready.give .object .length (content.length : Int)
      tag := paced.ready.give .object .tag ("\"etag-" ++ stored.id ++ "\"") }
    have opened : paced.ready.object bucket name = .ok object := by
      obtain ⟨id, second, _⟩ := stored
      cases held
      rw [Service.object, stack]
    have body : object.source = some { content } := Service.give_whole sound.whole .object .body _
    refine ⟨object, { content }, _, body, rfl, fun _ _ => rfl, follows_still sound, ?_⟩
    intro session
    have answered : Service.answer (.getObject client bucket name) session paced.ready =
        (.ok object, session, paced.ready) := by
      rw [Service.answer, opened]
    exact answer_of_ready answered

/-- One byte more than a KB goes through a throttle of 1 KB/s whose limiter turns requests down, and
comes back without a limit. -/
theorem Provider.round_trip_refused :
    let provider := Paced.provider "bkt"
    let connection : Connection := ⟨⟨2, [0, 1]⟩, some "bkt"⟩
    let session : Session := { answers := [false, true, false] }
    let content : Bytes := List.replicate 1025 7
    let limited := ({ workers := 2 } : Vault).limit (-3) 1
    let sent := limited.step (Connection.remote provider.handler) (session, (connection, ⟨{}, []⟩))
      (.upload 1 "n" content)
    let got := limited.step (Connection.remote provider.handler) sent.2 (.download 1 "n" {})
    sent.1 = .ok .done ∧ got.1 = .ok .done ∧ got.2.1.sink.data = content ∧
      sent.2.1.granted = 2 ∧ got.2.1.granted = 2 := by
  intro provider connection session content limited sent got
  have direct : provider.Direct := Paced.provider_direct "bkt"
  have steady : session.desk.Steady := fun _ among => nomatch among
  have isOpen : Sink.Open {} := fun _ _ => rfl
  have chosen : connection.bucket = some provider.bucket := rfl
  have sound : provider.sound ⟨{}, []⟩ := Paced.sound_start (by decide)
  have served : (0 : Int) ≤ 1 ∧ 1 < connection.pool.size := by decide
  obtain ⟨stored, fetched, data, _, up, down⟩ := Provider.round_trip direct chosen sound served "n"
    content { workers := 2 } (-3) 1 steady isOpen
  have kilos : tokensFor content.length = 2 := by
    rw [List.length_replicate]
    rfl
  have uncharged : session.granted = 0 := rfl
  have empty : Sink.data {} = [] := rfl
  rw [empty, List.nil_append] at data
  rw [if_pos (by decide), kilos, uncharged, Nat.zero_add] at up
  rw [if_neg (by decide), Nat.add_zero, up] at down
  with_reducible exact ⟨stored, fetched, data, up, down⟩

end FossilVault.Bucket
