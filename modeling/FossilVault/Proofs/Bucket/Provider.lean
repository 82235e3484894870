import FossilVault.Bucket.Connection
import FossilVault.Proofs.Archive
import FossilVault.Proofs.Bucket.Pages
/-
**Providers.** What a vault relies on of an object service: under each name there is a stack of
versions and markers, a put and a hide each put one on top with an unused identifier and the second
of its making, a deletion takes away the one that it names, and the clock never goes back. Nothing
is said of the pages of a listing but that they hold every version once, and under each name the
newest first.

* `Provider.Lawful` — the laws of a service;
* `Provider.Orderly` — identifiers are distinct and a newer version was made no earlier;
* `Provider.orderly_of_reached` — so it is after any requests on an empty bucket;
* `Provider.archive_lawful` — a connection to a lawful service is a lawful archive.
-/

namespace FossilVault.Bucket

/-- A payload gives the service this content when it is read. -/
inductive Payload.Carries : Payload → Bytes → Prop
  | plain (content : Bytes) : Carries (.plain content) content
  | wrapped {rate : Int} (limited : 0 < rate) (content : Bytes) (channel : String) (session : Session) :
      Carries (.wrapped (Body.make content rate channel session).1) content

/-- An object service with what it keeps of one bucket. -/
structure Provider (ω : Type) where
  handler : Handler interface ω
  bucket : String
  /-- The stacks of the names in the bucket. -/
  names : ω → Catalog Stored
  /-- The second in which the last request was answered. -/
  clock : ω → Int
  /-- The states that the service can be in. -/
  sound : ω → Prop

namespace Provider

variable {ω : Type}

/-- A request may lead here: the clock does not go back, and this is all that was written. -/
def Follows (provider : Provider ω) (write : Option Write) (world world' : ω) : Prop :=
  provider.sound world' ∧ provider.clock world ≤ provider.clock world' ∧
    match write with
    | none => provider.names world' = provider.names world
    | some (.push name content) => ∃ id, id ∉ ((provider.names world).history name).map Stored.id ∧
        provider.names world' = (provider.names world).push name ⟨id, provider.clock world', content⟩
    | some (.remove name id) =>
        provider.names world' = (provider.names world).keep name fun stored => stored.id != id

/-- A request is answered so and writes this, and it touches neither the clock nor the destination
of the session. -/
def Replies (provider : Provider ω) (request : Request) (world : ω) (reply : Except Fault (Reply request))
    (write : Option Write) : Prop :=
  ∀ session, ∃ session' world', provider.handler request session world = (reply, session', world') ∧
    session.Alike session' ∧ provider.Follows write world world'

/-- A request for an object gives out the newest version, or is refused when that is no content. -/
def Gives (provider : Provider ω) (client : Nat) (name : String) (world : ω) : Prop :=
  match ((provider.names world).history name).head?.bind Stored.content with
  | some content => ∃ object source, object.source = some source ∧ source.content = content ∧
      source.Steady ∧ provider.Replies (.getObject client provider.bucket name) world (.ok object) none
  | none => ∃ fault : Fault, fault.kind = .service ∧
      provider.Replies (.getObject client provider.bucket name) world (.error fault) none

/-- The laws of a service. -/
structure Lawful (provider : Provider ω) : Prop where
  /-- The clock shows a second of the calendar. -/
  calendar {world : ω} (sound : provider.sound world) : Dated (provider.clock world)
  /-- The pages of a listing hold every version once, and under each name the newest first. -/
  list {world : ω} (sound : provider.sound world) (client : Nat) (stem : String) :
    ∃ cuts : List (List Row), Row.Lists (provider.names world) stem cuts.flatten ∧
      provider.Replies (.listVersions client provider.bucket stem) world
        (.ok (cuts.map fun cut => Service.page (cut.map Row.item))) none
  /-- Deleting without a version puts a marker on top. -/
  hide {world : ω} (sound : provider.sound world) (client : Nat) (name : String) :
    ∃ marker, provider.Replies (.deleteObject client provider.bucket name none) world (.ok marker)
      (some (.push name none))
  /-- Deleting a version takes it away. -/
  delete {world : ω} (sound : provider.sound world) (client : Nat) (name id : String) :
    ∃ gone, provider.Replies (.deleteObject client provider.bucket name (some id)) world (.ok gone)
      (some (.remove name id))
  /-- A put puts a content on top. -/
  put {world : ω} (sound : provider.sound world) (client : Nat) (name : String) {payload : Payload}
    {content : Bytes} (carries : payload.Carries content) (contentType : String) :
    provider.Replies (.putObject client provider.bucket name payload content.length contentType) world
      (.ok ()) (some (.push name (some content)))
  get {world : ω} (sound : provider.sound world) (client : Nat) (name : String) :
    provider.Gives client name world

end Provider

/-! ### The order of making -/

namespace Stored

/-- The versions of a name as a clock that never goes back leaves them. -/
structure Orderly (clock : Int) (stack : List Stored) : Prop where
  distinct : (stack.map Stored.id).Nodup
  descending : Descending stack
  past : ∀ stored ∈ stack, stored.second ≤ clock
  dated : ∀ stored ∈ stack, Dated stored.second

namespace Orderly

variable {clock clock' : Int} {stack : List Stored}

theorem nil (clock : Int) : Orderly clock [] where
  distinct := .nil
  descending := .nil
  past _ among := nomatch among
  dated _ among := nomatch among

theorem sublist {kept : List Stored} (orderly : Orderly clock stack) (inside : kept.Sublist stack) :
    Orderly clock kept where
  distinct := orderly.distinct.sublist (inside.map _)
  descending := orderly.descending.sublist inside
  past stored among := orderly.past stored (inside.mem among)
  dated stored among := orderly.dated stored (inside.mem among)

theorem later (orderly : Orderly clock stack) (passed : clock ≤ clock') : Orderly clock' stack :=
  { orderly with past := fun stored among => Int.le_trans (orderly.past stored among) passed }

/-- A version that is made now goes on top. -/
theorem cons (orderly : Orderly clock stack) {id : String} (unused : id ∉ stack.map Stored.id)
    (dated : Dated clock) (content : Option Bytes) :
    Orderly clock (⟨id, clock, content⟩ :: stack) where
  distinct := List.nodup_cons.mpr ⟨unused, orderly.distinct⟩
  descending := List.pairwise_cons.mpr ⟨orderly.past, orderly.descending⟩
  past := by
    intro stored among
    rcases List.mem_cons.mp among with rfl | older
    · exact Int.le_refl clock
    · exact orderly.past stored older
  dated := by
    intro stored among
    rcases List.mem_cons.mp among with rfl | older
    · exact dated
    · exact orderly.dated stored older

end Orderly

end Stored

namespace Provider

variable {ω : Type} {provider : Provider ω} {world world' : ω}

/-- Under every name identifiers are distinct, and a newer version was made no earlier. -/
def Orderly (provider : Provider ω) (world : ω) : Prop :=
  ∀ name, Stored.Orderly (provider.clock world) ((provider.names world).history name)

/-- **Every request keeps the order of making.** -/
theorem Follows.orderly (lawful : provider.Lawful) {write : Option Write}
    (follows : provider.Follows write world world') (orderly : provider.Orderly world) :
    provider.Orderly world' := by
  obtain ⟨sound, passed, written⟩ := follows
  intro name
  have kept := (orderly name).later passed
  match write with
  | none =>
    rw [written]
    exact kept
  | some (.push other content) =>
    obtain ⟨id, unused, names⟩ := written
    rw [names, Catalog.history_push]
    by_cases same : name = other
    · rw [if_pos same]
      rw [same] at kept
      exact kept.cons unused (lawful.calendar sound) content
    · rw [if_neg same]
      exact kept
  | some (.remove other id) =>
    rw [written, Catalog.history_keep]
    by_cases same : name = other
    · rw [if_pos same]
      rw [same] at kept
      exact kept.sublist List.filter_sublist
    · rw [if_neg same]
      exact kept

/-- The states that puts, hides and deletions of versions lead to from an empty bucket. -/
inductive Reached (provider : Provider ω) : ω → Prop
  | start {world : ω} (sound : provider.sound world) (void : provider.names world = .empty) :
      Reached provider world
  | put {world : ω} (before : Reached provider world) (client : Nat) (name : String) {payload : Payload}
      {content : Bytes} (carries : payload.Carries content) (contentType : String) (session : Session) :
      Reached provider (provider.handler
        (.putObject client provider.bucket name payload content.length contentType) session world).2.2
  | hide {world : ω} (before : Reached provider world) (client : Nat) (name : String) (session : Session) :
      Reached provider (provider.handler (.deleteObject client provider.bucket name none) session world).2.2
  | delete {world : ω} (before : Reached provider world) (client : Nat) (name id : String)
      (session : Session) :
      Reached provider
        (provider.handler (.deleteObject client provider.bucket name (some id)) session world).2.2

theorem Replies.follows {request : Request} {reply : Except Fault (Reply request)} {write : Option Write}
    (replies : provider.Replies request world reply write) (session : Session) :
    provider.Follows write world (provider.handler request session world).2.2 := by
  obtain ⟨session', world', answered, _, follows⟩ := replies session
  rwa [answered]

/-- **After any requests on an empty bucket** the versions are in the order of their making. -/
theorem orderly_of_reached (lawful : provider.Lawful) (reached : provider.Reached world) :
    provider.sound world ∧ provider.Orderly world := by
  have next {request : Request} {reply : Except Fault (Reply request)} {write : Option Write}
      {world : ω} (replies : provider.Replies request world reply write)
      (orderly : provider.Orderly world) (session : Session) :
      provider.sound (provider.handler request session world).2.2 ∧
        provider.Orderly (provider.handler request session world).2.2 := by
    have follows := replies.follows session
    exact ⟨follows.1, follows.orderly lawful orderly⟩
  induction reached with
  | start sound void =>
    refine ⟨sound, ?_⟩
    intro name
    rw [void]
    exact .nil _
  | put before client name carries contentType session ih =>
    exact next (lawful.put ih.1 client name carries contentType) ih.2 session
  | hide before client name session ih =>
    obtain ⟨_, replies⟩ := lawful.hide ih.1 client name
    exact next replies ih.2 session
  | delete before client name id session ih =>
    obtain ⟨_, replies⟩ := lawful.delete ih.1 client name id
    exact next replies ih.2 session

/-! ### The archive of a connection -/

/-- A connection to a service as an archive. -/
def archive (provider : Provider ω) (connection : Connection) : Archive Stored (Connection × ω) where
  handler := Connection.remote provider.handler
  names state := provider.names state.2
  version := Stored.version
  order := Stored.relist
  sound state := state.1 = connection ∧ provider.sound state.2 ∧ provider.Orderly state.2
  serves worker := 0 ≤ worker ∧ worker < connection.pool.size
  reaches writes state state' :=
    (provider.names state.2).Wrote Stored.version writes (provider.names state'.2)

theorem Follows.wrote {write : Option Write} (follows : provider.Follows write world world') :
    (provider.names world).Wrote Stored.version write.toList (provider.names world') := by
  obtain ⟨_, _, written⟩ := follows
  match write with
  | none =>
    rw [written]
    exact .none _
  | some (.push name content) =>
    obtain ⟨id, _, names⟩ := written
    rw [names]
    exact .push rfl (.none _)
  | some (.remove name id) =>
    rw [written]
    exact .remove (.none _)

theorem run_ask (h : Handler interface ω) (request : Request) (session : Session) (world : ω) :
    (ask request).run h session world = h request session world :=
  Program.run_ask h request session world

/-- A program goes on with the answer to a request. -/
theorem run_answered {β : Type} {h : Handler interface ω} {request : Request}
    {outcome : Except Fault (Reply request)} {session session' : Session}
    (answered : h request session world = (outcome, session', world'))
    (next : Reply request → Program interface β) :
    (ask request >>= next).run h session world =
      (Program.ofExcept outcome >>= next).run h session' world' := by
  rw [Program.run_bind, Program.run_bind, Program.run_ofExcept, run_ask, answered]

theorem run_remote {h : Handler interface ω} {connection : Connection} {c : Remote.Call}
    {outcome : Except Fault (Remote.Reply c)} {session session' : Session}
    (run : (connection.serve c).run h session world = (outcome, session', world')) :
    Connection.remote h c session (connection, world) =
      (outcome, session', (connection.after c outcome, world')) := by
  show (((connection.serve c).run h session world).1, _, connection.after c _, _) = _
  rw [run]

/-- A call that ends so by one request is answered so. -/
theorem answers {connection : Connection} {c : Remote.Call} {outcome : Except Fault (Remote.Reply c)}
    (write : Option Write) (lawful : provider.Lawful) (orderly : provider.Orderly world)
    (same : connection.after c outcome = connection)
    (ends : ∀ session, ∃ session' world',
      (connection.serve c).run provider.handler session world = (outcome, session', world') ∧
        session.Alike session' ∧ provider.Follows write world world') :
    (provider.archive connection).Answers c (connection, world) outcome write.toList := by
  intro session
  obtain ⟨session', world', run, alike, follows⟩ := ends session
  refine ⟨session', (connection, world'), ?_, alike, ⟨rfl, follows.1, follows.orderly lawful orderly⟩,
    follows.wrote⟩
  have answered := run_remote run
  rwa [same] at answered

/-- What an upload carries gives its content. -/
theorem run_payload (h : Handler interface ω) (worker : Int) (content : Bytes) (rate : Int)
    (session : Session) (world : ω) :
    ∃ payload session', (Connection.payload worker content rate).run h session world =
        (.ok payload, session', world) ∧ session.Alike session' ∧ payload.Carries content := by
  unfold Connection.payload
  by_cases limited : 0 < rate
  · rw [if_pos limited]
    refine ⟨_, _, Program.run_within _ _ session world, ?_, .wrapped limited content _ session⟩
    exact throttleFor_alike rate _ session
  · rw [if_neg limited]
    exact ⟨_, session, rfl, .refl session, .plain content⟩

section Serving

variable {connection : Connection} (lawful : provider.Lawful)
  (chosen : connection.bucket = some provider.bucket) (sound : provider.sound world)
  (orderly : provider.Orderly world) {worker : Int} (served : 0 ≤ worker ∧ worker < connection.pool.size)

theorem target_served {connection : Connection} {bucket : String}
    (chosen : connection.bucket = some bucket) {worker : Int} (served : 0 ≤ worker ∧ worker < connection.pool.size) :
    connection.target worker = .ok (connection.pool.clients.getD worker.toNat 0, bucket) := by
  unfold Connection.target Connection.chosen Pool.client
  rw [if_pos served, chosen]
  rfl

include lawful chosen sound orderly served

theorem answers_list (stem : String) (exact withHidden : Bool) :
    (provider.archive connection).Answers (.list worker stem exact withHidden) (connection, world)
      (.ok ((provider.names world).listing Stored.version Stored.relist stem exact withHidden)) [] := by
  refine answers none lawful orderly rfl ?_
  intro session
  obtain ⟨cuts, lists, replies⟩ :=
    lawful.list sound (connection.pool.clients.getD worker.toNat 0) stem
  obtain ⟨session', world', answered, alike, follows⟩ := replies session
  have entries := Listing.entries_rows lists (fun name => (orderly name).dated) exact withHidden
  -- The message of the note is whatever it is: the session is only followed up to notes.
  obtain ⟨message, run⟩ : ∃ message,
      (connection.list worker stem exact withHidden).run provider.handler session world =
        (.ok _, session'.note .debug .bucket message, world') := ⟨_, by
    rw [Connection.list, Program.run_bind, Program.run_ofExcept, target_served chosen served]
    refine (run_answered answered _).trans ?_
    rw [Program.run_bind, Program.run_ofExcept]
    refine (Program.run_bind _ _ _ _ _).trans ?_
    rw [Program.run_ofExcept, entries]
    rfl⟩
  exact ⟨_, world', run, alike.trans (.note _ _ message session'), follows⟩

theorem answers_delete (name id : String) :
    (provider.archive connection).Answers (.delete worker name id) (connection, world) (.ok ())
      [.remove name id] := by
  refine answers (some (.remove name id)) lawful orderly rfl ?_
  intro session
  obtain ⟨gone, replies⟩ :=
    lawful.delete sound (connection.pool.clients.getD worker.toNat 0) name id
  obtain ⟨session', world', answered, alike, follows⟩ := replies session
  obtain ⟨message, run⟩ : ∃ message,
      (connection.delete worker name id).run provider.handler session world =
        (.ok (), session'.note .debug .bucket message, world') := ⟨_, by
    rw [Connection.delete, Program.run_bind, Program.run_ofExcept, target_served chosen served]
    exact run_answered answered _⟩
  exact ⟨_, world', run, alike.trans (.note _ _ message session'), follows⟩

theorem answers_hide (name : String) :
    ∃ marker, (provider.archive connection).Answers (.hide worker name) (connection, world)
      (.ok marker) [.push name none] := by
  obtain ⟨marker, replies⟩ := lawful.hide sound (connection.pool.clients.getD worker.toNat 0) name
  refine ⟨marker.getD "", answers (some (.push name none)) lawful orderly rfl ?_⟩
  intro session
  obtain ⟨session', world', answered, alike, follows⟩ := replies session
  obtain ⟨message, run⟩ : ∃ message,
      (connection.hide worker name).run provider.handler session world =
        (.ok (Option.getD marker ""), session'.note .debug .bucket message, world') := ⟨_, by
    rw [Connection.hide, Program.run_bind, Program.run_ofExcept, target_served chosen served]
    exact run_answered answered _⟩
  exact ⟨_, world', run, alike.trans (.note _ _ message session'), follows⟩

theorem answers_upload (name : String) (content : Bytes) (rate : Int) :
    (provider.archive connection).Answers (.upload worker name content rate) (connection, world)
      (.ok ()) [.push name (some content)] := by
  refine answers (some (.push name (some content))) lawful orderly rfl ?_
  intro session
  obtain ⟨payload, ready, made, before, carries⟩ :=
    run_payload provider.handler worker content rate session world
  obtain ⟨session', world', answered, alike, follows⟩ :=
    lawful.put sound (connection.pool.clients.getD worker.toNat 0) name carries
      "application/octet-stream" ready
  obtain ⟨message, run⟩ : ∃ message,
      (connection.upload worker name content rate).run provider.handler session world =
        (.ok (), session'.note .debug .bucket message, world') := ⟨_, by
    rw [Connection.upload, Program.run_bind, made]
    refine (Program.run_bind _ _ _ _ _).trans ?_
    rw [Program.run_ofExcept, target_served chosen served]
    exact run_answered answered _⟩
  exact ⟨_, world', run, (before.trans alike).trans (.note _ _ message session'), follows⟩

theorem opens_download (name : String) :
    (provider.archive connection).Opens worker name (connection, world) := by
  have held : Stacks.held name ((provider.archive connection).stacked (connection, world)) =
      ((provider.names world).history name).head?.bind Stored.content := by
    rw [Stacks.held, Archive.stacked, Catalog.history_contents, List.head?_map]
    show (((provider.names world).history name).head?.map Stored.content).join = _
    cases ((provider.names world).history name).head? <;> rfl
  have gives := lawful.get sound (connection.pool.clients.getD worker.toNat 0) name
  unfold Gives at gives
  unfold Archive.Opens
  rw [held]
  cases newest : ((provider.names world).history name).head?.bind Stored.content with
  | some content =>
    rw [newest] at gives
    obtain ⟨object, source, body, whole, steady, replies⟩ := gives
    refine ⟨⟨source, Connection.details object⟩, whole, steady,
      answers none lawful orderly rfl ?_⟩
    intro session
    obtain ⟨session', world', answered, alike, follows⟩ := replies session
    refine ⟨session', world', ?_, alike, follows⟩
    rw [Connection.serve, Connection.download, Program.run_bind, Program.run_ofExcept,
      target_served chosen served]
    refine (run_answered answered _).trans ?_
    rw [Program.run_bind, Program.run_ofExcept]
    refine (Program.run_bind _ _ _ _ _).trans ?_
    rw [body]
    rfl
  | none =>
    rw [newest] at gives
    obtain ⟨fault, service, replies⟩ := gives
    refine ⟨fault, service, answers none lawful orderly rfl ?_⟩
    intro session
    obtain ⟨session', world', answered, alike, follows⟩ := replies session
    refine ⟨session', world', ?_, alike, follows⟩
    rw [Connection.serve, Connection.download, Program.run_bind, Program.run_ofExcept,
      target_served chosen served]
    exact run_answered answered _

end Serving

/-- **A connection to a lawful service is a lawful archive.** -/
theorem archive_lawful (lawful : provider.Lawful) {connection : Connection}
    (chosen : connection.bucket = some provider.bucket) : (provider.archive connection).Lawful where
  order_void := Stored.relist_nil
  order_perm _ _ := Stored.relist_perm _
  order_head _ _ := Stored.relist_head _
  distinct := by
    rintro _ ⟨_, _, orderly⟩ name
    exact (orderly name).distinct
  wrote reached := reached
  stay _ := .none _
  trans before after := before.trans after
  list := by
    rintro ⟨_, world⟩ ⟨rfl, sound, orderly⟩ worker served stem exact withHidden
    exact answers_list lawful chosen sound orderly served stem exact withHidden
  delete := by
    rintro ⟨_, world⟩ ⟨rfl, sound, orderly⟩ worker served name id
    exact answers_delete lawful chosen sound orderly served name id
  hide := by
    rintro ⟨_, world⟩ ⟨rfl, sound, orderly⟩ worker served name
    exact answers_hide lawful chosen sound orderly served name
  upload := by
    rintro ⟨_, world⟩ ⟨rfl, sound, orderly⟩ worker served name content rate
    exact answers_upload lawful chosen sound orderly served name content rate
  download := by
    rintro ⟨_, world⟩ ⟨rfl, sound, orderly⟩ worker served name
    exact opens_download lawful chosen sound orderly served name

end Provider

end FossilVault.Bucket
