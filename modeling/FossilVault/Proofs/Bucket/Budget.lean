import FossilVault.Bucket.Service
import FossilVault.Proofs.Archive.Transfer
import FossilVault.Proofs.Bucket.Confinement
import FossilVault.Proofs.Drawing
/-
**The budget of a vault.** Each direction has a limit that its workers share, and each worker has a throttle
of its own for each direction. A service may read the body of an upload in any sizes, and does nothing else
to throttles.

* `Direction.channel_injective` — no two workers share a throttle, nor do two directions;
* `ReadsBodies` — what is asked of a service, which the one in memory keeps (`Service.readsBodies`);
* `Vault.draws_transfer` — a transfer draws on the throttle of its worker and its direction alone;
* `Vault.Budgeted.totalRate_le` — the throttles of a direction together stay within its limit;
* `Vault.shares_budget` — all of it along any run of transfers, however each one ends.
-/

namespace FossilVault

/-! ### Channels -/

/-- The ways in which a vault moves bytes. -/
inductive Direction
  | download | upload
  deriving DecidableEq, Repr

namespace Direction

/-- What the channels of a direction start with. -/
def stem : Direction → String
  | .download => "download:"
  | .upload => "upload:"

/-- The channel of a worker. -/
def channel (worker : Int) (direction : Direction) : String :=
  direction.stem ++ toString worker

/-- **No two workers share a channel, and no two directions do.** -/
theorem channel_injective {direction direction' : Direction} {worker worker' : Int}
    (natural : 0 ≤ worker) (natural' : 0 ≤ worker')
    (same : direction.channel worker = direction'.channel worker') :
    direction = direction' ∧ worker = worker' := by
  have first := congrArg (fun channel => channel.toList.head?) same
  have alike : direction = direction' := by
    cases direction <;> cases direction' <;> first | rfl | simp [channel, stem] at first
  subst alike
  obtain ⟨number, rfl⟩ := Int.eq_ofNat_of_zero_le natural
  obtain ⟨number', rfl⟩ := Int.eq_ofNat_of_zero_le natural'
  have numbers : toString number = toString number' := (Text.append_right_inj).mp same
  exact ⟨rfl, congrArg Int.ofNat (Text.toString_injective numbers)⟩

end Direction

/-- The direction of a transfer and the worker that makes it. -/
def Operation.transfer? : Operation → Option (Direction × Int)
  | .download worker .. => some (.download, worker)
  | .upload worker .. => some (.upload, worker)
  | .move .. | .delete .. | .inspect .. | .list .. | .makeDirectory .. => none

/-- The bytes that a transfer moved which ended so: an upload that came to its end moved its content, and a
download moved what came to its destination. -/
def Operation.moved (operation : Operation) (ended : Except Fault Answer) (after : Session) : Nat :=
  match operation, ended with
  | .upload _ _ content, .ok _ => content.length
  | .download _ _ destination, _ => after.sink.data.length - destination.data.length
  | _, _ => 0

namespace Vault

/-- The limit of a direction. -/
def limitOf (vault : Vault) : Direction → Int
  | .download => vault.downloadLimit
  | .upload => vault.uploadLimit

/-- The rate of every worker in a direction. -/
def rateOf (vault : Vault) (direction : Direction) : Int :=
  share (vault.limitOf direction) vault.workers

end Vault

/-! ### Services that read the bodies of uploads -/

namespace Bucket

/-- What a transfer shows of its session: the throttles, the requests for tokens and the destination. -/
def meter (session : Session) : List (String × Int) × List Acquisition × Sink :=
  (session.throttles, session.requests, session.sink)

/-- The body that a request carries behind a throttle. -/
def Request.body? : Request → Option Body
  | .putObject _ _ _ (.wrapped body) _ _ => some body
  | _ => none

/-- A service leaves throttles and destinations alone, but for the body of an upload: it may read it in any
sizes, and when it accepts the upload it has read all of it. -/
structure ReadsBodies {ω : Type} (h : Handler interface ω) : Prop where
  wrapped : ∀ client bucket key content rate channel made length contentType session world, 0 < rate →
    let body := (Body.make content rate channel made).1
    let answered := h (.putObject client bucket key (.wrapped body) length contentType) session world
    ∃ count body' read, body.Used session count body' read ∧
      answered.2.1.throttles = read.throttles ∧ answered.2.1.requests = read.requests ∧
      (answered.1 = .ok () → content.length ≤ count)
  other : ∀ request session world, request.body? = none →
    meter (h request session world).2.1 = meter session

/-- The service in memory reads a body to its end. -/
theorem Service.readsBodies : ReadsBodies Service.answer where
  wrapped := by
    intro client bucket key content rate channel made length contentType session world limited body
      answered
    obtain ⟨_, last, whole, _⟩ := Body.read_make limited content channel made session
    have answers : answered.2.1 = (body.read none session).2.2 := by
      simp only [answered, answer, contentOf, body, whole]
    refine ⟨_, _, _, .read none .start, by rw [answers], by rw [answers], ?_⟩
    intro _
    rw [show (body.read none session).1 = .ok content by simp only [body, whole], Body.given]
    omega
  other := by
    intro request session world other
    cases request with
    | putObject client bucket key payload length contentType =>
      cases payload with
      | plain content => rfl
      | wrapped body => cases other
    | deleteObject client bucket key id => cases id <;> rfl
    | headBucket client bucket =>
      simp only [answer]
      split <;> rfl
    | bucketVersioning client bucket =>
      simp only [answer]
      split <;> rfl
    | createClient | listBuckets | listVersions | getObject => rfl

variable {ω : Type} {h : Handler interface ω}

/-- What a request for a target leaves of a session, when nothing that follows it changes that. -/
theorem observed_request {α γ : Type} (h : Handler interface ω) (observe : Session → γ)
    (target : Except Fault (Nat × String)) (request : Nat × String → Request)
    (next : (aim : Nat × String) → Reply (request aim) → Program interface α)
    (quiet : ∀ aim reply session world,
      observe ((next aim reply).run h session world).2.1 = observe session)
    (session : Session) (world : ω) :
    let ended := (Program.ofExcept target >>= fun aim => ask (request aim) >>= next aim).run h session world
    (∃ fault, ended.1 = .error fault ∧ ended.2.1 = session) ∨
      ∃ aim, observe ended.2.1 = observe (h (request aim) session world).2.1 ∧
        ∀ value, ended.1 = .ok value → ∃ reply, (h (request aim) session world).1 = .ok reply := by
  cases target with
  | error fault => exact .inl ⟨fault, rfl, rfl⟩
  | ok aim =>
    refine .inr ⟨aim, ?_⟩
    have ran := Provider.run_answered (rfl : h (request aim) session world = (_, _, _)) (next aim)
    rw [Program.run_bind, Program.run_ofExcept]
    simp only [ran]
    cases (h (request aim) session world).1 with
    | error fault => exact ⟨rfl, nofun⟩
    | ok reply => exact ⟨quiet aim reply _ _, fun _ _ => ⟨reply, rfl⟩⟩

/-- Opening an object leaves throttles and destinations alone. -/
theorem ReadsBodies.download (reads : ReadsBodies h) (worker : Int) (name : String) (session : Session)
    (state : Connection × ω) :
    meter (Connection.remote h (.download worker name) session state).2.1 = meter session := by
  obtain ⟨connection, world⟩ := state
  have asked := observed_request h meter (connection.target worker)
    (fun aim => .getObject aim.1 aim.2 name)
    (fun _ object => Program.ofExcept (Listing.required "Body" object.source) >>= fun source =>
      pure { source, details := Connection.details object : Remote.Opened })
    (by
      intro aim object session world
      rw [Program.run_bind, Program.run_ofExcept]
      cases Listing.required "Body" object.source <;> rfl) session world
  rcases asked with ⟨_, _, same⟩ | ⟨aim, same, _⟩
  · exact congrArg meter same
  · exact same.trans (reads.other (.getObject aim.1 aim.2 name) session world rfl)

/-- What the request of an upload leaves of a session. -/
theorem observed_send (h : Handler interface ω) (connection : Connection) (worker : Int) (name : String)
    (payload : Payload) (length : Nat) (session : Session) (world : ω) :
    let ended := (connection.send worker name payload length).run h session world
    (∃ fault, ended.1 = .error fault ∧ ended.2.1 = session) ∨
      ∃ client bucket,
        let answered :=
          h (.putObject client bucket name payload length "application/octet-stream") session world
        meter ended.2.1 = meter answered.2.1 ∧ (ended.1 = .ok () → answered.1 = .ok ()) := by
  rcases observed_request h meter (connection.target worker)
    (fun aim => .putObject aim.1 aim.2 name payload length "application/octet-stream")
    (fun _ _ => Program.note .debug .bucket
      ("Uploaded " ++ toString length ++ " bytes to '" ++ name ++ "'"))
    (fun _ _ _ _ => rfl) session world with failed | ⟨aim, same, accepted⟩
  · exact .inl failed
  · refine .inr ⟨aim.1, aim.2, same, ?_⟩
    intro ended
    obtain ⟨_, told⟩ := accepted () ended
    exact told

/-- **An upload draws on the throttle of its worker alone**, and pays for its content when it is
accepted. -/
theorem ReadsBodies.upload (reads : ReadsBodies h) (worker : Int) (name : String) (content : Bytes)
    (rate : Int) (session : Session) (state : Connection × ω) :
    let answered := Connection.remote h (.upload worker name content rate) session state
    ∃ count, session.Draws rate (Vault.uploadChannel worker) count answered.2.1 ∧
      (0 < rate → answered.1 = .ok () → content.length ≤ count) := by
  obtain ⟨connection, world⟩ := state
  simp only [Connection.remote, Connection.serve]
  by_cases limited : 0 < rate
  case neg =>
    have sent : (connection.upload worker name content rate).run h session world =
        (connection.send worker name (.plain content) content.length).run h session world := by
      rw [Connection.upload_eq, Connection.payload, if_neg limited]
      rfl
    rw [sent]
    refine ⟨0, ?_, fun paid => absurd paid limited⟩
    rcases observed_send h connection worker name (.plain content) content.length session world with
      ⟨_, _, same⟩ | ⟨client, bucket, same, _⟩
    · exact .same (congrArg Session.throttles same) (congrArg Session.requests same)
    · have kept := same.trans (reads.other _ session world rfl)
      exact .same (congrArg Prod.fst kept) (congrArg (·.2.1) kept)
  case pos =>
    let made := Body.make content rate (Vault.uploadChannel worker) session
    have sent : (connection.upload worker name content rate).run h session world =
        (connection.send worker name (.wrapped made.1) content.length).run h made.2 world := by
      rw [Connection.upload_eq, Connection.payload, if_pos limited]
      rfl
    have enrolled : session.Draws rate (Vault.uploadChannel worker) 0 made.2 := .enrol session
    have known : (Vault.uploadChannel worker, rate) ∈ made.2.throttles :=
      Session.mem_throttles_of_throttleFor limited _ session
    have throttled : made.1.throttle = some ⟨rate, Vault.uploadChannel worker⟩ := by
      show (session.throttleFor rate (Vault.uploadChannel worker)).1 = _
      rw [Session.throttleFor_fst, if_neg (Int.not_le.mpr limited)]
    rw [sent]
    rcases observed_send h connection worker name (.wrapped made.1) content.length made.2 world with
      ⟨fault, failed, same⟩ | ⟨client, bucket, same, accepted⟩
    · refine ⟨_, enrolled.trans (.same (congrArg Session.throttles same)
        (congrArg Session.requests same)), ?_⟩
      intro _ ended
      cases failed.symm.trans ended
    · obtain ⟨given, body', read, used, throttles, requests, whole⟩ :=
        reads.wrapped client bucket name content rate (Vault.uploadChannel worker) session content.length
          "application/octet-stream" made.2 world limited
      obtain ⟨_, count, draws, paid⟩ := used.draws limited throttled known
      refine ⟨_, (enrolled.trans draws).trans (.same ?_ ?_), ?_⟩
      · exact (congrArg Prod.fst same).trans throttles
      · exact (congrArg (·.2.1) same).trans requests
      · intro _ ended
        have := whole (accepted ended)
        omega

end Bucket

namespace Vault

variable {ω : Type} {h : Handler Bucket.interface ω}

open Bucket

theorem meter_readClock (session : Session) : meter session.readClock.2 = meter session := by
  unfold Session.readClock
  split <;> rfl

/-- What shows the same leaves throttles and requests alone. -/
theorem draws_of_meter {rate : Int} {channel : String} {session session' : Session}
    (same : meter session' = meter session) : session.Draws rate channel 0 session' :=
  .same (congrArg Prod.fst same) (congrArg (·.2.1) same)

/-- A timed program comes to a result only if its body does. -/
theorem timedOutcome_ok {α : Type} {start finish : Instant} {outcome : Except Fault α} {value : α}
    (told : Program.timedOutcome start finish outcome = .ok value) : outcome = .ok value := by
  unfold Program.timedOutcome at told
  split at told
  · exact told
  · cases elapsed : start.elapsed finish with
    | error fault =>
      rw [elapsed] at told
      cases told
    | ok seconds =>
      rw [elapsed] at told
      exact told

/-- **Receiving draws on the throttle of its worker alone**, and pays for what arrives. -/
theorem draws_receive (vault : Vault) (h : Handler Remote.interface ω) (worker : Int) (source : Source)
    (session : Session) (world : ω) :
    let ended := (vault.receive worker source).run h session world
    ∃ count, session.Draws (vault.rateOf .download) (Direction.download.channel worker) count ended.2.1 ∧
      ended.2.1.sink.data.length ≤ session.sink.data.length + count := by
  obtain ⟨count, draws, gained⟩ := copy_draws (vault.rateOf .download) (Direction.download.channel worker)
    source { session with opened := session.opened + 1 }
  have opened : session.Draws (vault.rateOf .download) (Direction.download.channel worker) 0
      { session with opened := session.opened + 1 } := .same rfl rfl
  simp only [receive, Program.run_bind, Program.run_modify, Program.run_attempt, Program.run_within,
    Program.run_ofExcept]
  refine ⟨_, (opened.trans draws).trans (.same rfl rfl), ?_⟩
  rw [Nat.zero_add]
  exact gained

section Transfers

variable (vault : Vault) (reads : ReadsBodies h) (worker : Int) (path : String)
  (now : Session × Connection × ω)

theorem notes_meter (level : Log.Level) (part : Log.Part) (message : String) (session : Session) :
    meter (session.note level part message) = meter session := rfl

include reads

/-- **An upload draws on its throttle alone**, and pays for its content when it comes to its end. -/
theorem draws_upload (content : Bytes) :
    let next := vault.step (Connection.remote h) now (.upload worker path content)
    ∃ count, now.1.Draws (vault.rateOf .upload) (Direction.upload.channel worker) count next.2.1 ∧
      (0 < vault.rateOf .upload → ∀ answer, next.1 = .ok answer → content.length ≤ count) := by
  intro next
  let sends : Program Remote.interface Unit :=
    Remote.ask (.upload worker path content (vault.rateOf .upload))
  let answered := Connection.remote h (.upload worker path content (vault.rateOf .upload))
    now.1.readClock.2 now.2
  have ran : sends.run (Connection.remote h) now.1.readClock.2 now.2 = answered := Remote.run_ask _ _ _ _
  obtain ⟨count, draws, paid⟩ :=
    reads.upload worker path content (vault.rateOf .upload) now.1.readClock.2 now.2
  have followed := Program.run_followed (Connection.remote h) (vault.upload worker path content)
    (fun _ => Answer.done) now.1 now.2
  have shown := Program.observed_timed meter meter_readClock notes_meter (Connection.remote h)
    "upload_file" worker path sends now.1 now.2
  have ended := (Program.run_timed (Connection.remote h) "upload_file" worker path sends now.1 now.2).1
  rw [ran] at shown
  simp only [ran] at ended
  refine ⟨_, ((draws_of_meter (meter_readClock now.1)).trans draws).trans (draws_of_meter ?_), ?_⟩
  · exact (congrArg (meter ·.1) followed).trans shown
  · intro limited answer came
    obtain ⟨_, _, _, told, _⟩ := Program.run_bind_ok (Prod.ext came rfl : next = (.ok answer, next.2))
    have told := congrArg Prod.fst told
    have := paid limited (timedOutcome_ok (ended.symm.trans told))
    omega

/-- **A download draws on its throttle alone**, and pays for what arrives, however it ends. -/
theorem draws_download (destination : Sink) :
    let next := vault.step (Connection.remote h) now (.download worker path destination)
    ∃ count, now.1.Draws (vault.rateOf .download) (Direction.download.channel worker) count next.2.1 ∧
      next.2.1.sink.data.length ≤ destination.data.length + count := by
  intro next
  let ready : Session := { now.1 with sink := destination }
  let fetches : Program Remote.interface Unit :=
    Remote.ask (.download worker path) >>= fun opened =>
      vault.receive worker (Remote.Opened.source opened)
  have followed := Program.run_followed (Connection.remote h) (vault.download worker path)
    (fun _ => Answer.done) ready now.2
  have shown := Program.observed_timed meter meter_readClock notes_meter (Connection.remote h)
    "download_file" worker path fetches ready now.2
  have kept := (reads.download worker path ready.readClock.2 now.2).trans (meter_readClock ready)
  have started : now.1.Draws (vault.rateOf .download) (Direction.download.channel worker) 0 ready :=
    .same rfl rfl
  have last : meter next.2.1 = meter (fetches.run (Connection.remote h) ready.readClock.2 now.2).2.1 :=
    (congrArg (meter ·.1) followed).trans shown
  suffices ∃ count, ready.Draws (vault.rateOf .download) (Direction.download.channel worker) count
      (fetches.run (Connection.remote h) ready.readClock.2 now.2).2.1 ∧
        (fetches.run (Connection.remote h) ready.readClock.2 now.2).2.1.sink.data.length ≤
          destination.data.length + count by
    obtain ⟨count, draws, gained⟩ := this
    have arrived : next.2.1.sink = (fetches.run (Connection.remote h) ready.readClock.2 now.2).2.1.sink :=
      congrArg (·.2.2) last
    refine ⟨_, (started.trans draws).trans (draws_of_meter last), ?_⟩
    rw [arrived]
    omega
  rw [Program.run_bind, Remote.run_ask]
  generalize Connection.remote h (.download worker path) ready.readClock.2 now.2 = answered at kept ⊢
  obtain ⟨outcome, session, state⟩ := answered
  have here : ready.Draws (vault.rateOf .download) (Direction.download.channel worker) 0 session :=
    draws_of_meter kept
  have sink : session.sink = destination := congrArg (·.2.2) kept
  cases outcome with
  | error fault => exact ⟨0, here, by rw [← sink]; exact Nat.le_refl _⟩
  | ok opened =>
    obtain ⟨count, draws, gained⟩ :=
      draws_receive vault (Connection.remote h) worker opened.source session state
    refine ⟨_, here.trans draws, ?_⟩
    rw [sink] at gained
    rw [Nat.zero_add]
    exact gained

end Transfers

/-- **A transfer draws on the throttle of its worker and its direction alone**, and pays for what it
moved. -/
theorem draws_transfer (vault : Vault) (reads : ReadsBodies h) {transfer : Operation}
    {direction : Direction} {worker : Int} (moves : transfer.transfer? = some (direction, worker))
    (now : Session × Connection × ω) :
    let next := vault.step (Connection.remote h) now transfer
    ∃ count, now.1.Draws (vault.rateOf direction) (direction.channel worker) count next.2.1 ∧
      (0 < vault.rateOf direction → transfer.moved next.1 next.2.1 ≤ count) := by
  intro next
  cases transfer with
  | upload _ path content =>
    cases moves
    obtain ⟨count, draws, paid⟩ := vault.draws_upload reads worker path now content
    refine ⟨count, draws, ?_⟩
    intro limited
    cases came : next.1 with
    | error fault => exact Nat.zero_le _
    | ok answer => exact paid limited answer came
  | download _ path destination =>
    cases moves
    obtain ⟨count, draws, gained⟩ := vault.draws_download reads worker path now destination
    refine ⟨count, draws, ?_⟩
    intro _
    exact Nat.sub_le_iff_le_add'.mpr gained
  | move | delete | inspect | list | makeDirectory => cases moves

/-! ### Runs -/

/-- The rates of the throttles of a direction. -/
def rates (direction : Direction) (session : Session) : List Int :=
  (session.throttles.filter (Text.beginsWith ·.1 direction.stem)).map Prod.snd

/-- What the throttles of a direction let pass together. -/
def totalRate (direction : Direction) (session : Session) : Int :=
  (rates direction session).foldr (· + ·) 0

/-- No throttle was made twice, and every one is that of a worker and a direction that has a limit. -/
structure Budgeted (vault : Vault) (session : Session) : Prop where
  distinct : session.throttles.Nodup
  owned : ∀ channel rate, (channel, rate) ∈ session.throttles → ∃ direction worker,
    (0 ≤ worker ∧ worker < vault.workers) ∧ 0 < vault.limitOf direction ∧
      channel = direction.channel worker ∧ rate = vault.rateOf direction

namespace Budgeted

variable {vault : Vault} {session session' : Session}

theorem of_draws {direction : Direction} {worker : Int} (served : 0 ≤ worker ∧ worker < vault.workers)
    {count : Nat} (budgeted : vault.Budgeted session)
    (draws : session.Draws (vault.rateOf direction) (direction.channel worker) count session') :
    vault.Budgeted session' := by
  rcases draws.throttles with same | ⟨limited, fresh, grown⟩
  · exact ⟨same ▸ budgeted.distinct, same ▸ budgeted.owned⟩
  · have some_limit : 0 < vault.limitOf direction := by
      refine Int.not_le.mp fun free => ?_
      rw [rateOf, share_nonpos free] at limited
      exact absurd limited (Int.lt_irrefl 0)
    constructor
    case distinct =>
      rw [grown]
      exact Session.nodup_enrolled budgeted.distinct fresh
    case owned =>
      intro channel rate among
      rw [grown] at among
      rcases List.mem_append.mp among with before | last
      · exact budgeted.owned channel rate before
      · cases List.mem_singleton.mp last
        exact ⟨direction, worker, served, some_limit, rfl, rfl⟩

/-- A throttle of a direction is that of a worker, at the rate of all. -/
theorem of_direction (budgeted : vault.Budgeted session) {direction : Direction} {key : String × Int}
    (among : key ∈ session.throttles.filter (Text.beginsWith ·.1 direction.stem)) :
    0 < vault.limitOf direction ∧
      key ∈ (List.range vault.workers.toNat).map fun (number : Nat) =>
        (direction.channel number, vault.rateOf direction) := by
  obtain ⟨channel, rate⟩ := key
  obtain ⟨held, named⟩ := List.mem_filter.mp among
  obtain ⟨other, worker, served, limited, rfl, rfl⟩ := budgeted.owned channel rate held
  obtain ⟨rest, same⟩ := Text.beginsWith_iff.mp named
  have first := congrArg (fun channel => channel.toList.head?) same
  have alike : other = direction := by
    cases other <;> cases direction <;>
      first | rfl | simp [Direction.channel, Direction.stem] at first
  subst alike
  refine ⟨limited, List.mem_map.mpr ⟨worker.toNat, ?_, ?_⟩⟩
  · rw [List.mem_range]
    omega
  · rw [Int.toNat_of_nonneg served.1]

/-- Without a limit nothing is made. -/
theorem rates_unlimited (budgeted : vault.Budgeted session) {direction : Direction}
    (free : vault.limitOf direction ≤ 0) : rates direction session = [] := by
  unfold rates
  cases kept : session.throttles.filter (Text.beginsWith ·.1 direction.stem) with
  | nil => rfl
  | cons key rest =>
    have := (budgeted.of_direction (kept ▸ List.mem_cons_self)).1
    omega

theorem eq_of_mem_rates (budgeted : vault.Budgeted session) {direction : Direction} {rate : Int}
    (among : rate ∈ rates direction session) : rate = vault.rateOf direction := by
  obtain ⟨key, held, rfl⟩ := List.mem_map.mp among
  obtain ⟨number, _, rfl⟩ := List.mem_map.mp (budgeted.of_direction held).2
  rfl

/-- There are no more throttles of a direction than workers. -/
theorem length_rates_le (budgeted : vault.Budgeted session) (direction : Direction) :
    (rates direction session).length ≤ vault.workers.toNat := by
  have inside : session.throttles.filter (Text.beginsWith ·.1 direction.stem) ⊆
      (List.range vault.workers.toNat).map fun (number : Nat) =>
        (direction.channel number, vault.rateOf direction) :=
    fun _ among => (budgeted.of_direction among).2
  have few := List.Nodup.length_le_of_subset (budgeted.distinct.sublist List.filter_sublist) inside
  simpa [rates] using few

/-- **All throttles of a direction together stay within its limit**, or within one KB per second for each
worker. -/
theorem totalRate_le (budgeted : vault.Budgeted session) (staffed : 1 ≤ vault.workers)
    (direction : Direction) :
    totalRate direction session ≤ max (vault.limitOf direction) vault.workers := by
  have summed : totalRate direction session = (rates direction session).sum := rfl
  rw [summed]
  by_cases limited : 0 < vault.limitOf direction
  · have even : EvenShare (vault.limitOf direction) vault.workers (vault.rateOf direction) :=
      evenShare_share limited staffed
    have few := budgeted.length_rates_le direction
    have alike := List.eq_replicate_iff.mpr
      ⟨rfl, fun rate (among : rate ∈ rates direction session) => budgeted.eq_of_mem_rates among⟩
    calc (rates direction session).sum
        = (rates direction session).length * vault.rateOf direction := by
          rw [← List.sum_replicate_int, ← alike]
      _ ≤ vault.workers * vault.rateOf direction :=
          Int.mul_le_mul_of_nonneg_right (by omega) (by have := even.positive; omega)
      _ ≤ max (vault.limitOf direction) vault.workers := even.le_max
  · rw [budgeted.rates_unlimited (Int.not_lt.mp limited)]
    show (0 : Int) ≤ _
    omega

end Budgeted

/-- The throttle of a worker in a direction. -/
def throttle (vault : Vault) (direction : Direction) (worker : Int) : Throttle :=
  ⟨vault.rateOf direction, direction.channel worker⟩

/-- What a transfer is charged that moved so many bytes: without a limit nothing happens to throttles, and
with one all tokens are asked of the throttle of its worker and its direction, which is there by then, and
they pay for all bytes. -/
structure Charged (vault : Vault) (direction : Direction) (worker : Int) (moved : Nat)
    (now next : Session) : Prop where
  unlimited : vault.limitOf direction ≤ 0 →
    next.throttles = now.throttles ∧ next.requests = now.requests
  asked : ∃ requests, next.requests = requests ++ now.requests ∧ ∀ request ∈ requests,
    request.throttle = vault.throttle direction worker ∧
      (direction.channel worker, vault.rateOf direction) ∈ next.throttles
  paid : 0 < vault.limitOf direction → tokenSize * now.granted + moved ≤ tokenSize * next.granted

theorem charged_transfer (vault : Vault) (reads : ReadsBodies h) {transfer : Operation}
    {direction : Direction} {worker : Int} (moves : transfer.transfer? = some (direction, worker))
    (now : Session × Connection × ω) :
    let next := vault.step (Connection.remote h) now transfer
    vault.Charged direction worker (transfer.moved next.1 next.2.1) now.1 next.2.1 := by
  intro next
  obtain ⟨count, draws, paid⟩ := vault.draws_transfer reads moves now
  constructor
  case unlimited =>
    intro free
    exact draws.unlimited (Int.le_of_eq (share_nonpos free vault.workers))
  case asked =>
    obtain ⟨requests, front, own⟩ := draws.requests
    exact ⟨requests, front, fun request among => ⟨(own request among).1, (own request among).2.2⟩⟩
  case paid =>
    intro limited
    have rated : 0 < vault.rateOf direction := share_pos limited vault.workers
    have moved : transfer.moved next.1 next.2.1 ≤ count := paid rated
    have bought : tokenSize * now.1.granted + count ≤ tokenSize * next.2.1.granted := draws.paid rated
    omega

/-- Before each transfer of a run and after it no throttle was made twice, and every one is that of a worker
and a direction that has a limit. -/
theorem budgeted_after (vault : Vault) (reads : ReadsBodies h) {transfers : List Operation}
    (ours : ∀ transfer ∈ transfers, ∃ direction worker, transfer.transfer? = some (direction, worker) ∧
      0 ≤ worker ∧ worker < vault.workers) {state : Session × Connection × ω}
    (budgeted : vault.Budgeted state.1) :
    vault.Budgeted (vault.after (Connection.remote h) transfers state).1 := by
  induction transfers generalizing state with
  | nil => exact budgeted
  | cons transfer rest ih =>
    obtain ⟨direction, worker, moves, served⟩ := ours transfer (.head _)
    obtain ⟨_, draws, _⟩ := vault.draws_transfer reads moves state
    refine ih ?_ (budgeted.of_draws served draws)
    intro later among
    exact ours later (.tail _ among)

theorem budgeted_empty (vault : Vault) {session : Session} (void : session.throttles = []) :
    vault.Budgeted session where
  distinct := by
    rw [void]
    exact List.nodup_nil
  owned := by
    rw [void]
    exact nofun

/-- No two throttles of workers and directions are one. -/
theorem throttle_injective (vault : Vault) {direction direction' : Direction} {worker worker' : Int}
    (natural : 0 ≤ worker) (natural' : 0 ≤ worker')
    (same : vault.throttle direction worker = vault.throttle direction' worker') :
    direction = direction' ∧ worker = worker' :=
  Direction.channel_injective natural natural' (Option.some.inj (congrArg Throttle.channel same))

/-- **The limit of each direction is shared without leaking**, whatever the transfers of the workers come
to. Each transfer is charged to the throttle of its worker and its direction and to no other, all of these
have the same even share as their rate, and together they stay within the limit. Whatever throttles are asked
for, two of them are one exactly if their channels and their rates are the same. -/
theorem shares_budget (vault : Vault) (staffed : 1 ≤ vault.workers) (reads : ReadsBodies h)
    {transfers : List Operation}
    (ours : ∀ transfer ∈ transfers, ∃ direction worker, transfer.transfer? = some (direction, worker) ∧
      0 ≤ worker ∧ worker < vault.workers)
    {session : Session} (void : session.throttles = []) (state : Connection × ω) :
    (∀ before transfer rest, transfers = before ++ transfer :: rest →
      let now := vault.after (Connection.remote h) before (session, state)
      let next := vault.step (Connection.remote h) now transfer
      (∀ direction worker, transfer.transfer? = some (direction, worker) →
        vault.Charged direction worker (transfer.moved next.1 next.2.1) now.1 next.2.1) ∧
      vault.Budgeted next.2.1 ∧
      ∀ direction, (vault.limitOf direction ≤ 0 → rates direction next.2.1 = []) ∧
        totalRate direction next.2.1 ≤ max (vault.limitOf direction) vault.workers) ∧
    (∀ direction, 0 < vault.limitOf direction →
      EvenShare (vault.limitOf direction) vault.workers (vault.rateOf direction)) ∧
    (∀ direction direction' worker worker', 0 ≤ worker → 0 ≤ worker' →
      vault.throttle direction worker = vault.throttle direction' worker' →
        direction = direction' ∧ worker = worker') ∧
    ∀ (asked : List (Int × String)) (start : Session), start.throttles.Nodup → start.HandsOut asked := by
  refine ⟨?_, fun _ limited => evenShare_share limited staffed,
    fun _ _ _ _ natural natural' => vault.throttle_injective natural natural',
    fun asked _ distinct => Session.handsOut asked distinct⟩
  intro before transfer rest parts now next
  subst parts
  obtain ⟨direction, worker, moves, served⟩ := ours transfer (by simp)
  obtain ⟨_, draws, _⟩ := vault.draws_transfer reads moves now
  have earlier : vault.Budgeted now.1 := by
    refine vault.budgeted_after reads ?_ (vault.budgeted_empty void)
    intro other among
    exact ours other (List.mem_append_left _ among)
  have budgeted : vault.Budgeted next.2.1 := earlier.of_draws served draws
  refine ⟨fun _ _ moves => vault.charged_transfer reads moves now, budgeted, ?_⟩
  intro direction
  exact ⟨budgeted.rates_unlimited, budgeted.totalRate_le staffed direction⟩

/-- Three workers share seven KB per second for downloads and two for uploads. Two of them upload, then the
third one downloads what the first one stored. A throttle that is asked for again is the same one. -/
theorem shares_budget_of_three :
    let vault : Vault := { workers := 3, downloadLimit := 7, uploadLimit := 2 }
    let transfers : List Operation :=
      [.upload 0 "a" [97], .upload 1 "b" [98], .download 2 "a" {}]
    let state : Connection × Service := (⟨⟨3, [0, 1, 2]⟩, some "bkt"⟩, {})
    let now := vault.after (Connection.remote Service.answer) (transfers.take 2) ({}, state)
    let next := vault.step (Connection.remote Service.answer) now (.download 2 "a" {})
    let moved := (Operation.download 2 "a" {}).moved next.1 next.2.1
    let asked : List (Int × String) := [(1, "upload:0"), (1, "upload:0"), (2, "upload:0"), (0, "upload:0")]
    next.2.1.throttles = [("upload:0", 1), ("upload:1", 1), ("download:2", 2)] ∧
      moved = 1 ∧ vault.Charged .download 2 moved now.1 next.2.1 ∧
      totalRate .upload next.2.1 ≤ max 2 3 ∧ totalRate .download next.2.1 ≤ max 7 3 ∧
      Session.HandsOut asked {} ∧
      (Session.handOut asked {}).1 = [⟨some 0, some ⟨1, "upload:0"⟩⟩, ⟨some 0, some ⟨1, "upload:0"⟩⟩,
        ⟨some 1, some ⟨2, "upload:0"⟩⟩, ⟨none, none⟩] := by
  intro vault transfers state
  have ours : ∀ transfer ∈ transfers, ∃ direction worker,
      transfer.transfer? = some (direction, worker) ∧ 0 ≤ worker ∧ worker < vault.workers := by
    intro transfer among
    simp only [transfers, List.mem_cons, List.not_mem_nil, or_false] at among
    rcases among with rfl | rfl | rfl
    · exact ⟨.upload, 0, rfl, by decide, by decide⟩
    · exact ⟨.upload, 1, rfl, by decide, by decide⟩
    · exact ⟨.download, 2, rfl, by decide, by decide⟩
  obtain ⟨runs, _, _, hands⟩ := vault.shares_budget (by decide) Service.readsBodies ours
    (rfl : ({} : Session).throttles = []) state
  obtain ⟨charged, _, within⟩ := runs (transfers.take 2) (.download 2 "a" {}) [] rfl
  exact ⟨by decide +kernel, by decide +kernel, charged .download 2 rfl, (within .upload).2,
    (within .download).2, hands _ {} List.nodup_nil, by decide⟩

end Vault

end FossilVault
