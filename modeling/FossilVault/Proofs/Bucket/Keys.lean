import FossilVault.Bucket.Connection
import FossilVault.Bucket.Service
import FossilVault.Proofs.Paired
/-
**Keys.** A client is made with the keys of the settings, and nothing else is. A service that does not look at
them does the same for settings that differ in their keys alone: the requests that are made are the same but
for the keys, and a vault connects alike.

* `Settings.ButKeys` — settings that differ in their keys alone, none of which is there in one of them only;
* `Request.masked` — a request but for the keys that it carries;
* `Indifferent` — a service that does not look at keys, as is `Service.indifferent` the one in memory;
* `Indifferent.watched` — it stays so when requests fail, and is asked the same but for the keys;
* `Indifferent.attach` — settings that differ in their keys alone connect alike.
-/

namespace FossilVault

/-! ### Settings but for their keys -/

/-- A secret is filled in both settings, or the same in both. -/
def SameButFilled (secret secret' : Option String) : Prop :=
  secret = secret' ∨ (Settings.filled secret).isSome ∧ (Settings.filled secret').isSome

/-- Settings that differ in their keys alone, each of which is filled in both or the same in both. -/
inductive Settings.ButKeys (settings : Settings) : Settings → Prop
  | rekeyed {accessKey secretKey : Option String} (access : SameButFilled settings.accessKey accessKey)
      (secret : SameButFilled settings.secretKey secretKey) :
      ButKeys settings { settings with accessKey, secretKey }

theorem SameButFilled.isSome {secret secret' : Option String} (same : SameButFilled secret secret') :
    (Settings.filled secret).isSome = (Settings.filled secret').isSome := by
  rcases same with rfl | ⟨filled, filled'⟩
  · rfl
  · rw [filled, filled']

/-- **Settings are shown without their keys.** -/
theorem Settings.ButKeys.environment {settings settings' : Settings} (alike : settings.ButKeys settings') :
    settings.environment = settings'.environment := by
  obtain ⟨access, secret⟩ := alike
  simp only [Settings.environment, masked, access.isSome, secret.isSome]

namespace Bucket

variable {ω : Type}

/-! ### Requests but for their keys -/

/-- The options but for the keys: of each only whether it is there. -/
def ClientOptions.masked (options : ClientOptions) : ClientOptions :=
  { options with
    accessKey := options.accessKey.map fun _ => ""
    secretKey := options.secretKey.map fun _ => "" }

/-- The request but for the keys that it carries. -/
def Request.masked : Request → Request
  | .createClient options => .createClient options.masked
  | request => request

theorem Request.action_masked (request : Request) : request.masked.action = request.action := by
  cases request <;> rfl

theorem masked_clientOptions {settings settings' : Settings} (alike : settings.ButKeys settings') :
    settings.clientOptions.masked = settings'.clientOptions.masked := by
  have filled {secret secret' : Option String} (same : SameButFilled secret secret') :
      (Settings.filled secret).map (fun _ => "") = (Settings.filled secret').map fun _ => "" := by
    have present := same.isSome
    cases held : Settings.filled secret <;> cases held' : Settings.filled secret' <;>
      simp [held, held'] at present ⊢
  obtain ⟨access, secret⟩ := alike
  simp only [Settings.clientOptions, ClientOptions.masked, filled access, filled secret]

/-- Requests that make no client are the same if they are the same but for their keys. -/
theorem filter_of_masked {requests requests' : List Request}
    (same : requests.map Request.masked = requests'.map Request.masked) :
    requests.filter (·.action != .createClient) = requests'.filter (·.action != .createClient) := by
  have kept (requests : List Request) :
      (requests.map Request.masked).filter (·.action != .createClient) =
        requests.filter (·.action != .createClient) := by
    induction requests with
    | nil => rfl
    | cons request rest ih =>
      cases request with
      | createClient options => exact ih
      | _ => exact congrArg (_ :: ·) ih
  rw [← kept requests, same, kept]

/-! ### Services that do not look at keys -/

/-- A service that does not look at keys: in related worlds it does the same for two clients whose keys alone
differ, and for every other request. -/
structure Indifferent (h : Handler interface ω) (related : ω → ω → Prop) : Prop where
  createClient : ∀ options options' session world world', options.masked = options'.masked →
    related world world' → Paired related (h (.createClient options) session world)
      (h (.createClient options') session world')
  others : ∀ request, request.action ≠ .createClient → h.Blind related request

/-- Watched services with related worlds that were asked the same but for the keys. -/
structure AskedAlike (related : ω → ω → Prop) (watched watched' : Watched interface ω) : Prop where
  world : related watched.world watched'.world
  calls : watched.calls.map Request.masked = watched'.calls.map Request.masked

/-- As many requests of a sort were made if the same were made but for their keys. -/
theorem countP_of_masked {requests requests' : List Request}
    (same : requests.map Request.masked = requests'.map Request.masked) (action : Action) :
    requests.countP (·.action == action) = requests'.countP (·.action == action) := by
  have kept (requests : List Request) : (requests.map Request.masked).countP (·.action == action) =
      requests.countP (·.action == action) := by
    rw [List.countP_map]
    congr 1
    funext request
    show (request.masked.action == action) = _
    rw [request.action_masked]
  rw [← kept requests, same, kept]

/-- A request that fails or not as planned is paired with one that is planned alike. -/
theorem paired_planned {α : Type} {related : ω → ω → Prop} (planned : Option Fault) (session : Session)
    {answered answered' : Except Fault α × Session × ω} (answers : Paired related answered answered')
    {world world' : ω} (alike : related world world') {calls calls' : List Request}
    (same : calls.map Request.masked = calls'.map Request.masked) :
    Paired (AskedAlike related)
      (match planned with
        | some fault => (.error fault, session, (⟨world, calls⟩ : Watched interface ω))
        | none => (answered.1, answered.2.1, ⟨answered.2.2, calls⟩))
      (match planned with
        | some fault => (.error fault, session, ⟨world', calls'⟩)
        | none => (answered'.1, answered'.2.1, ⟨answered'.2.2, calls'⟩)) := by
  cases planned with
  | some fault => exact ⟨rfl, rfl, alike, same⟩
  | none => exact ⟨answers.outcome, answers.session, answers.world, same⟩

/-- States of a remote with one connection and related worlds. -/
structure SameConnection (related : ω → ω → Prop) (state state' : Connection × ω) : Prop where
  connection : state.1 = state'.1
  world : related state.2 state'.2

namespace Indifferent

variable {h : Handler interface ω} {related : ω → ω → Prop} (indifferent : Indifferent h related)

include indifferent

theorem blind (request : Request) : h.Blind related request := by
  cases request with
  | createClient options =>
    exact fun session world world' => indifferent.createClient options options session world world' rfl
  | _ => exact indifferent.others _ nofun

/-- **It stays so when requests fail**, whichever these are, and the same is asked of it but for the keys. -/
theorem watched (plan : Action → Nat → Option Fault) :
    Indifferent (h.watched Request.action plan) (AskedAlike related) where
  createClient options options' session watched watched' masked alike := by
    have same : (Request.createClient options :: watched.calls).map Request.masked =
        (Request.createClient options' :: watched'.calls).map Request.masked := by
      rw [List.map_cons, List.map_cons, Request.masked, Request.masked, masked, alike.calls]
    have answers := indifferent.createClient options options' session _ _ masked alike.world
    unfold Handler.watched
    simp only [countP_of_masked same]
    exact paired_planned _ session answers alike.world same
  others request notClient session watched watched' alike := by
    have same : (request :: watched.calls).map Request.masked =
        (request :: watched'.calls).map Request.masked := by
      rw [List.map_cons, List.map_cons, alike.calls]
    have answers := indifferent.others request notClient session _ _ alike.world
    unfold Handler.watched
    simp only [countP_of_masked same]
    exact paired_planned _ session answers alike.world same

/-! ### Connecting -/

/-- Settings that differ in their keys alone make pools alike. -/
theorem create {settings settings' : Settings} (alike : settings.ButKeys settings') :
    Program.InPairs h related (Pool.create settings) (Pool.create settings') := by
  have masked := masked_clientOptions alike
  have client (worker : Nat) : Program.InPairs h related (Pool.createClient settings.clientOptions worker)
      (Pool.createClient settings'.clientOptions worker) := by
    have asks : Program.InPairs h related (ask (.createClient settings.clientOptions))
        (ask (.createClient settings'.clientOptions)) := by
      intro session world world' same
      rw [ask, ask, Program.run_ask, Program.run_ask]
      exact indifferent.createClient _ _ session world world' masked same
    refine asks.attempt.bind fun outcome => ?_
    cases outcome with
    | ok client => exact .refl indifferent.blind _
    | error fault => exact .refl indifferent.blind _
  have clients (worker count : Nat) :
      Program.InPairs h related (Pool.createClients settings.clientOptions worker count)
        (Pool.createClients settings'.clientOptions worker count) := by
    induction count generalizing worker with
    | zero => exact .refl indifferent.blind _
    | succ count ih =>
      exact (client worker).bind fun _ => (ih (worker + 1)).bind fun _ => .refl indifferent.blind _
  obtain ⟨access, secret⟩ := alike
  iterate 4 refine (Program.InPairs.refl indifferent.blind _).bind fun _ => ?_
  exact (clients 0 _).bind fun _ => .refl indifferent.blind _

/-- A connection does not look at keys either. -/
theorem remote (c : Remote.Call) : (Connection.remote h).Blind (SameConnection related) c := by
  rintro session ⟨connection, world⟩ ⟨_, world'⟩ ⟨rfl, alike⟩
  have served := Program.InPairs.refl indifferent.blind (connection.serve c) session world world' alike
  exact ⟨served.outcome, served.session, congrArg (connection.after c) served.outcome, served.world⟩

/-- **Settings that differ in their keys alone connect alike.** -/
theorem attach {settings settings' : Settings} (alike : settings.ButKeys settings') (session : Session)
    {world world' : ω} (same : related world world') :
    Paired related (Bucket.attach settings h session world) (Bucket.attach settings' h session world') := by
  have made := indifferent.create alike session world world' same
  obtain ⟨access, secret⟩ := alike
  unfold Bucket.attach
  generalize (Pool.create settings).run h session world = created at made ⊢
  generalize (Pool.create _).run h session world' = created' at made ⊢
  obtain ⟨outcome, left, world⟩ := created
  obtain ⟨_, _, world'⟩ := created'
  obtain ⟨rfl, rfl, same⟩ := made
  cases outcome with
  | error fault => exact ⟨rfl, rfl, same⟩
  | ok pool =>
    have joined := Program.InPairs.refl indifferent.remote
      (Vault.connect settings.bucket pool.size settings.downloadLimit settings.uploadLimit) left
      (⟨pool, none⟩, world) (⟨pool, none⟩, world') ⟨rfl, same⟩
    simp only
    generalize (Vault.connect _ _ _ _).run _ left (_, world) = connected at joined ⊢
    generalize (Vault.connect _ _ _ _).run _ left (_, world') = connected' at joined ⊢
    obtain ⟨outcome, left, connection, world⟩ := connected
    obtain ⟨_, _, _, world'⟩ := connected'
    obtain ⟨rfl, rfl, rfl, same⟩ := joined
    cases outcome with
    | error fault => exact ⟨rfl, rfl, same⟩
    | ok vault => exact ⟨rfl, rfl, same⟩

end Indifferent

/-! ### The service in memory -/

namespace Service

/-- The service but for the keys of its clients. -/
def masked (service : Service) : Service :=
  { service with clients := service.clients.map ClientOptions.masked }

/-- Services that are the same but for the keys of their clients are the same but for their clients. -/
theorem eq_of_masked {service service' : Service} (alike : service.masked = service'.masked) :
    ∃ clients, service' = { service with clients } ∧
      clients.map ClientOptions.masked = service.clients.map ClientOptions.masked := by
  obtain ⟨buckets, pageSize, omitted, issued, second, clients⟩ := service
  obtain ⟨buckets', pageSize', omitted', issued', second', clients'⟩ := service'
  simp only [masked, mk.injEq] at alike
  obtain ⟨rfl, rfl, rfl, rfl, rfl, keyed⟩ := alike
  exact ⟨clients', rfl, keyed.symm⟩

/-- A request that makes no client leaves the clients alone, and does the same whichever they are. -/
theorem answer_clients {request : Request} (other : request.action ≠ .createClient) (session : Session)
    (service : Service) (clients : List ClientOptions) :
    let answered := answer request session service
    answered.2.2.clients = service.clients ∧
      answer request session { service with clients } =
        (answered.1, answered.2.1, { answered.2.2 with clients }) := by
  cases request with
  | createClient options => exact absurd rfl other
  | listBuckets | listVersions | getObject => exact ⟨rfl, rfl⟩
  | headBucket client bucket | bucketVersioning client bucket =>
    cases found : service.buckets.lookup bucket <;> simp [answer, bucket?, found]
  | deleteObject client bucket key id => cases id <;> exact ⟨rfl, rfl⟩
  | putObject client bucket key payload =>
    rcases read : contentOf payload session with ⟨fault | content, left⟩
    · simp [answer, read]
    · simp only [answer, read]
      exact ⟨rfl, rfl⟩

/-- **The service in memory does not look at keys**: it does no more than keep them. -/
theorem indifferent : Indifferent answer fun service service' => service.masked = service'.masked where
  createClient options options' session service service' same alike := by
    obtain ⟨clients, rfl, keyed⟩ := eq_of_masked alike
    have count : clients.length = service.clients.length := by
      simpa using congrArg List.length keyed
    refine ⟨congrArg Except.ok count.symm, rfl, ?_⟩
    simp only [answer, masked, List.map_cons, same, keyed]
  others request other session service service' alike := by
    obtain ⟨clients, rfl, keyed⟩ := eq_of_masked alike
    obtain ⟨kept, same⟩ := answer_clients other session service clients
    rw [same]
    refine ⟨rfl, rfl, ?_⟩
    simp only [masked, kept, keyed]

end Service

end Bucket

end FossilVault
