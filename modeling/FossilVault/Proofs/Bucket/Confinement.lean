import FossilVault.Proofs.Bucket.Provider
import FossilVault.Proofs.Exchanges
/-
**Whose requests reach which bucket.** A pool makes its clients in the order of its workers, and a call on
objects makes its one request with the client of its worker, on the bucket that was checked last. A worker
outside the pool is refused before the missing bucket is noticed, and neither refusal costs a request. A
check that fails leaves the bucket that was chosen before.

* `Pool.exchanges_create` — the clients of a pool are those made for it, in order;
* `Connection.directed_serve` — the request of a call on objects, or its refusal;
* `Connection.enabled_of_check` — what a bucket answered that passed its check;
* `Connection.confined_serveAll` — all of it along any sequence of calls, whatever they are answered.
-/

namespace FossilVault

/-- The worker that a call on objects names. -/
def Remote.Call.worker? : Remote.Call → Option Int
  | .list worker .. | .delete worker .. | .hide worker .. | .upload worker .. | .download worker .. =>
    some worker
  | .authorize | .findBucket _ => none

namespace Bucket

variable {ω : Type}

/-- The client that a request on objects is made with, and the bucket that it names. -/
def Request.target? : Request → Option (Nat × String)
  | .listVersions client bucket _ | .deleteObject client bucket .. | .putObject client bucket ..
  | .getObject client bucket _ => some (client, bucket)
  | .createClient _ | .listBuckets _ | .headBucket .. | .bucketVersioning .. => none

/-- The client that was made in an exchange. -/
def created? : Exchange interface → Option Nat
  | ⟨.createClient _, .ok client⟩ => some client
  | _ => none

theorem exchanges_ask (h : Handler interface ω) (request : Request) (session : Session) (world : ω) :
    (ask request).exchanges h session world = [⟨request, (h request session world).1⟩] :=
  Program.exchanges_ask h request session world

theorem answer_of_run {h : Handler interface ω} {request : Request} {session session' : Session}
    {world world' : ω} {reply : Except Fault (Reply request)}
    (asked : (ask request).run h session world = (reply, session', world')) :
    (h request session world).1 = reply := by
  rw [Provider.run_ask] at asked
  rw [asked]

/-! ### The clients of a pool -/

namespace Pool

theorem exchanges_createClient {options : ClientOptions} {worker client : Nat} {h : Handler interface ω}
    {session session' : Session} {world world' : ω}
    (made : (createClient options worker).run h session world = (.ok client, session', world')) :
    ((createClient options worker).exchanges h session world).filterMap created? = [client] := by
  obtain ⟨outcome, session₁, world₁, asked, later, exchanged⟩ := Program.run_bind_ok made
  rw [Program.run_attempt, Provider.run_ask] at asked
  cases asked
  rw [createClient, exchanged, Program.exchanges_attempt, Bucket.ask, Program.exchanges_ask]
  generalize (h (.createClient options) session world).1 = outcome at later ⊢
  cases outcome with
  | error fault =>
    simp only at later
    split at later
    · cases later
    · cases later
  | ok client =>
    cases later
    rfl

/-- **The clients of a pool are those that were made for it**, in the order of its workers. -/
theorem exchanges_createClients {options : ClientOptions} {worker count : Nat} {h : Handler interface ω}
    {session session' : Session} {world world' : ω} {clients : List Nat}
    (made : (createClients options worker count).run h session world = (.ok clients, session', world')) :
    ((createClients options worker count).exchanges h session world).filterMap created? = clients ∧
      clients.length = count := by
  induction count generalizing worker session world session' world' clients with
  | zero =>
    cases made
    exact ⟨rfl, rfl⟩
  | succ count ih =>
    obtain ⟨client, session₁, world₁, first, made, exchanged⟩ := Program.run_bind_ok made
    obtain ⟨rest, session₂, world₂, later, made, exchanged'⟩ := Program.run_bind_ok made
    obtain ⟨same, whole⟩ := ih later
    cases made
    rw [createClients, exchanged, exchanged', List.filterMap_append, List.filterMap_append, same,
      exchanges_createClient first]
    exact ⟨congrArg (client :: ·) (List.append_nil rest), congrArg Nat.succ whole⟩

theorem exchanges_create {settings : Settings} {threads : Option Int} {h : Handler interface ω}
    {session session' : Session} {world world' : ω} {pool : Pool}
    (made : (create settings threads).run h session world = (.ok pool, session', world')) :
    pool.size = sizeFor settings threads ∧ pool.clients.length = pool.size.toNat ∧
      ((create settings threads).exchanges h session world).filterMap created? = pool.clients := by
  simp only [create, Program.run_note_bind] at made
  simp only [create, Program.exchanges_note_bind]
  obtain ⟨clients, session₁, world₁, built, ended, exchanged⟩ := Program.run_bind_ok made
  obtain ⟨same, whole⟩ := exchanges_createClients built
  cases ended
  refine ⟨rfl, whole, ?_⟩
  rw [exchanged, List.filterMap_append, same]
  exact List.append_nil clients

end Pool

/-! ### The request of a call -/

namespace Connection

variable {α β : Type}

/-- A program that ends with the fault of its target, if that is one, before any request; otherwise it makes
one request, with the client and on the bucket that are its target. -/
structure Directed (target : Except Fault (Nat × String)) (h : Handler interface ω)
    (program : Program interface α) : Prop where
  refused : ∀ {fault}, target = .error fault → ∀ session world,
    (program.run h session world).1 = .error fault ∧ (program.run h session world).2.2 = world ∧
      program.exchanges h session world = []
  aimed : ∀ {aim}, target = .ok aim → ∀ session world,
    (program.exchanges h session world).map (·.call.target?) = [some aim]

/-- What makes its request first and calls nothing after it is directed. -/
theorem directed_ask (target : Except Fault (Nat × String)) (h : Handler interface ω)
    (request : Nat × String → Request) (aims : ∀ aim, (request aim).target? = some aim)
    {next : (aim : Nat × String) → Reply (request aim) → Program interface α}
    (quiet : ∀ aim reply, (next aim reply).Only fun _ => False) :
    Directed target h (Program.ofExcept target >>= fun aim => ask (request aim) >>= next aim) where
  refused := by
    rintro fault rfl session world
    exact ⟨rfl, rfl, rfl⟩
  aimed := by
    rintro aim rfl session world
    have exchanged := Program.exchanges_ask_bind h (quiet aim) session world
    exact (congrArg (List.map (·.call.target?)) exchanged).trans (congrArg ([·]) (aims aim))

/-- It stays directed behind a step that calls nothing and does not fail. -/
theorem Directed.behind {target : Except Fault (Nat × String)} {h : Handler interface ω}
    {next : β → Program interface α} (directed : ∀ value, Directed target h (next value))
    {step : Session → Except Fault β × Session}
    (passes : ∀ session, ∃ value, (step session).1 = .ok value) :
    Directed target h (Program.within step >>= next) where
  refused := by
    intro fault failed session world
    obtain ⟨value, passed⟩ := passes session
    have ended := (directed value).refused failed (step session).2 world
    rw [Program.run_bind, Program.exchanges_bind, Program.run_within, passed,
      (Program.Only.within step).exchanges_quiet, List.nil_append]
    exact ended
  aimed := by
    intro aim found session world
    obtain ⟨value, passed⟩ := passes session
    have exchanged := (directed value).aimed found (step session).2 world
    rw [Program.exchanges_bind, Program.run_within, passed,
      (Program.Only.within step).exchanges_quiet, List.nil_append]
    exact exchanged

theorem target_unchosen {connection : Connection} (unchosen : connection.bucket = none) {worker : Int}
    (inside : 0 ≤ worker ∧ worker < connection.pool.size) :
    connection.target worker = .error .noBucket := by
  unfold target chosen Pool.client
  rw [if_pos inside, unchosen]
  rfl

/-- Sends the payload of an upload. -/
def send (worker : Int) (name : String) (payload : Payload) (length : Nat) (connection : Connection) :
    Program interface Unit :=
  Program.ofExcept (connection.target worker) >>= fun aim =>
    ask (.putObject aim.1 aim.2 name payload length "application/octet-stream") >>= fun _ =>
      Program.note .debug .bucket ("Uploaded " ++ toString length ++ " bytes to '" ++ name ++ "'")

theorem upload_eq (worker : Int) (name : String) (content : Bytes) (rate : Int) (connection : Connection) :
    connection.upload worker name content rate =
      payload worker content rate >>= fun payload => connection.send worker name payload content.length := rfl

/-- **A call on objects makes one request, with the client of its worker and on the chosen bucket**, or none
when there is no such client or no such bucket. -/
theorem directed_serve (connection : Connection) (h : Handler interface ω) {c : Remote.Call} {worker : Int}
    (named : c.worker? = some worker) : Directed (connection.target worker) h (connection.serve c) := by
  cases c with
  | authorize | findBucket => cases named
  | list _ stem exact withHidden =>
    cases named
    exact directed_ask _ h (fun aim => .listVersions aim.1 aim.2 stem) (fun _ => rfl)
      fun _ pages => (Program.Only.ofExcept _).bind fun _ => (Program.Only.note _ _ _).bind fun _ => .done _
  | delete _ name id =>
    cases named
    exact directed_ask _ h (fun aim => .deleteObject aim.1 aim.2 name (some id)) (fun _ => rfl)
      fun _ _ => .note _ _ _
  | hide _ name =>
    cases named
    exact directed_ask _ h (fun aim => .deleteObject aim.1 aim.2 name none) (fun _ => rfl)
      fun _ _ => (Program.Only.note _ _ _).bind fun _ => .done _
  | upload _ name content rate =>
    cases named
    have sends (payload : Payload) :
        Directed (connection.target worker) h (connection.send worker name payload content.length) :=
      directed_ask _ h (fun aim => .putObject aim.1 aim.2 name payload content.length _) (fun _ => rfl)
        fun _ _ => .note _ _ _
    rw [serve, upload_eq, payload]
    split
    · exact Directed.behind sends fun _ => ⟨_, rfl⟩
    · exact sends (.plain content)
  | download _ name =>
    cases named
    exact directed_ask _ h (fun aim => .getObject aim.1 aim.2 name) (fun _ => rfl)
      fun _ _ => (Program.Only.ofExcept _).bind fun _ => .done _

/-- In one of the exchanges a bucket told that it keeps versions. -/
def ToldVersioned (bucket : String) (exchanges : List (Exchange interface)) : Prop :=
  ∃ client, ⟨Request.bucketVersioning client bucket, .ok (some versioned)⟩ ∈ exchanges

/-- A bucket that passed its check told that it keeps versions. -/
theorem enabled_of_check {bucket : String} {connection : Connection} {h : Handler interface ω}
    {session session' : Session} {world world' : ω}
    (passed : (connection.check bucket).run h session world = (.ok (), session', world')) :
    ToldVersioned bucket ((connection.check bucket).exchanges h session world) := by
  obtain ⟨client, session₁, world₁, _, passed, exchanged⟩ := Program.run_bind_ok passed
  obtain ⟨_, session₂, world₂, _, passed, exchanged'⟩ := Program.run_bind_ok passed
  obtain ⟨status, session₃, world₃, asked, passed, exchanged''⟩ := Program.run_bind_ok passed
  split at passed
  case isTrue enabled =>
    subst enabled
    have told : (⟨Request.bucketVersioning client bucket, .ok (some versioned)⟩ : Exchange interface) ∈
        (ask (.bucketVersioning client bucket)).exchanges h session₂ world₂ := by
      rw [exchanges_ask, answer_of_run asked]
      exact .head _
    refine ⟨client, ?_⟩
    rw [check, exchanged, exchanged', exchanged'']
    exact List.mem_append_right _ (List.mem_append_right _ (List.mem_append_left _ told))
  case isFalse => cases passed

/-- The bucket that a call found which ended so. -/
def foundBy {α : Type} : Remote.Call → Except Fault α → Option String
  | .findBucket bucket, .ok _ => some bucket
  | _, _ => none

theorem bucket_after (c : Remote.Call) (outcome : Except Fault α) (connection : Connection) :
    (connection.after c outcome).bucket = (foundBy c outcome).or connection.bucket := by
  cases c <;> cases outcome <;> rfl

theorem found_ok {c : Remote.Call} {outcome : Except Fault α} {bucket : String}
    (found : foundBy c outcome = some bucket) :
    c = .findBucket bucket ∧ ∃ value, outcome = .ok value := by
  unfold foundBy at found
  split at found
  · cases found
    exact ⟨rfl, _, rfl⟩
  · cases found

/-! ### Sequences of calls -/

/-- A call that was served: what it ended with, its requests with their answers, the bucket that was chosen
after it, and the world before and after it. -/
structure Served (ω : Type) where
  call : Remote.Call
  ended : Except Fault (Remote.Reply call)
  exchanges : List (Exchange interface)
  bucket : Option String
  start : ω
  finish : ω

namespace Served

/-- The bucket that was found. -/
def found (served : Served ω) : Option String :=
  foundBy served.call served.ended

/-- The call ended with a fault, made no request and changed nothing. -/
def Refused (served : Served ω) (fault : Fault) : Prop :=
  served.ended = .error fault ∧ served.exchanges = [] ∧ served.finish = served.start

/-- What a call on objects by a worker comes to when these clients were made and this bucket is chosen. -/
structure Confined (served : Served ω) (size : Int) (clients : List Nat) (chosen : Option String)
    (worker : Int) : Prop where
  outside : worker < 0 ∨ size ≤ worker → served.Refused (.workerOutOfRange worker size)
  unchosen : 0 ≤ worker → worker < size → chosen = none → served.Refused .noBucket
  directed : 0 ≤ worker → worker < size → ∀ bucket, chosen = some bucket →
    ∃ client, clients[worker.toNat]? = some client ∧
      served.exchanges.map (·.call.target?) = [some (client, bucket)]

/-- What holds of a call when these clients were made and this bucket is chosen. -/
structure Lawful (served : Served ω) (size : Int) (clients : List Nat) (chosen : Option String) :
    Prop where
  bucket : served.bucket = served.found.or chosen
  enabled : ∀ bucket, served.found = some bucket → ToldVersioned bucket served.exchanges
  confined : ∀ worker, served.call.worker? = some worker → served.Confined size clients chosen worker

/-- The bucket that was found last, or else the one chosen at the start. -/
def lastFound (start : Option String) (served : List (Served ω)) : Option String :=
  (served.filterMap found).getLast?.or start

theorem lastFound_cons (start : Option String) (first : Served ω) (rest : List (Served ω)) :
    lastFound start (first :: rest) = lastFound (first.found.or start) rest := by
  unfold lastFound
  cases searched : first.found with
  | none => rw [List.filterMap_cons_none searched, Option.none_or]
  | some bucket =>
    rw [List.filterMap_cons_some searched, List.getLast?_cons]
    cases (rest.filterMap found).getLast? <;> rfl

end Served

/-- A call as a connection serves it. -/
def Served.ofCall (h : Handler interface ω) (c : Remote.Call) (session : Session)
    (state : Connection × ω) : Served ω :=
  let answered := remote h c session state
  { call := c
    ended := answered.1
    exchanges := (state.1.serve c).exchanges h session state.2
    bucket := answered.2.2.1.bucket
    start := state.2
    finish := answered.2.2.2 }

/-- Serves calls one after the other. -/
def serveAll (h : Handler interface ω) : List Remote.Call → Session → Connection × ω → List (Served ω)
  | [], _, _ => []
  | c :: rest, session, state =>
    let answered := remote h c session state
    Served.ofCall h c session state :: serveAll h rest answered.2.1 answered.2.2

theorem lawful_ofCall (h : Handler interface ω) (c : Remote.Call) (session : Session)
    (connection : Connection) (whole : connection.pool.clients.length = connection.pool.size.toNat)
    (world : ω) :
    (Served.ofCall h c session (connection, world)).Lawful connection.pool.size connection.pool.clients
      connection.bucket where
  bucket := bucket_after c _ connection
  enabled := by
    intro bucket found
    obtain ⟨rfl, _, passed⟩ := found_ok found
    exact enabled_of_check (Prod.ext passed rfl)
  confined := by
    intro worker named
    have directed := directed_serve connection h named
    constructor
    case outside =>
      intro outside
      have nobody := Pool.client_eq_error_iff.mpr outside
      obtain ⟨ended, same, none⟩ := directed.refused (client_first nobody) session world
      exact ⟨ended, none, same⟩
    case unchosen =>
      intro lower upper unchosen
      have nowhere := target_unchosen unchosen ⟨lower, upper⟩
      obtain ⟨ended, same, none⟩ := directed.refused nowhere session world
      exact ⟨ended, none, same⟩
    case directed =>
      intro lower upper bucket chosen
      have somewhere := Provider.target_served chosen ⟨lower, upper⟩
      refine ⟨_, ?_, directed.aimed somewhere session world⟩
      have inside : worker.toNat < connection.pool.clients.length := by omega
      simp [inside]

/-- What holds of each call holds of it in its place in a sequence. -/
theorem lawful_serveAll (h : Handler interface ω) (calls : List Remote.Call) (session : Session)
    (connection : Connection) (whole : connection.pool.clients.length = connection.pool.size.toNat)
    (world : ω) :
    ∀ before served after, serveAll h calls session (connection, world) = before ++ served :: after →
      served.Lawful connection.pool.size connection.pool.clients
        (Served.lastFound connection.bucket before) := by
  induction calls generalizing session connection world with
  | nil =>
    intro before served after parts
    cases before <;> cases parts
  | cons c rest ih =>
    intro before served after parts
    have now := lawful_ofCall h c session connection whole world
    cases before with
    | nil =>
      cases parts
      exact now
    | cons first before =>
      obtain ⟨rfl, later⟩ := List.cons.inj parts
      have kept : (remote h c session (connection, world)).2.2.1.pool = connection.pool :=
        pool_after c _ connection
      have later := ih (remote h c session (connection, world)).2.1
        (remote h c session (connection, world)).2.2.1 (by rw [kept, whole]) _ before served after later
      rw [kept, show (remote h c session (connection, world)).2.2.1.bucket = _ from now.bucket] at later
      rw [Served.lastFound_cons]
      exact later

theorem map_call_serveAll (h : Handler interface ω) (calls : List Remote.Call) (session : Session)
    (state : Connection × ω) : (serveAll h calls session state).map Served.call = calls := by
  induction calls generalizing session state with
  | nil => rfl
  | cons c rest ih => exact congrArg (c :: ·) (ih _ _)

/-- **Every call is confined to its worker's client and to the bucket that was found last**, whatever any
request is answered: that bucket told that it keeps versions, and a worker outside the pool and a call before
any bucket are refused without a request. -/
theorem confined_serveAll {settings : Settings} {threads : Option Int} {h : Handler interface ω}
    {session session' : Session} {world world' : ω} {pool : Pool}
    (made : (Pool.create settings threads).run h session world = (.ok pool, session', world'))
    (calls : List Remote.Call) :
    let size := Pool.sizeFor settings threads
    let clients := ((Pool.create settings threads).exchanges h session world).filterMap created?
    let all := serveAll h calls session' (⟨pool, none⟩, world')
    all.map Served.call = calls ∧
    ∀ before served after, all = before ++ served :: after →
      served.bucket = ((before ++ [served]).filterMap Served.found).getLast? ∧
      (∀ bucket, served.found = some bucket → ToldVersioned bucket served.exchanges) ∧
      ∀ worker, served.call.worker? = some worker →
        served.Confined size clients (before.filterMap Served.found).getLast? worker := by
  obtain ⟨sized, whole, clients⟩ := Pool.exchanges_create made
  refine ⟨map_call_serveAll h calls session' _, ?_⟩
  intro before served after parts
  have lawful := lawful_serveAll h calls session' ⟨pool, none⟩ whole world' before served after parts
  rw [← sized, clients]
  have last : Served.lastFound none before = (before.filterMap Served.found).getLast? := Option.or_none
  rw [show (Connection.mk pool none).bucket = none from rfl, last] at lawful
  refine ⟨?_, lawful.enabled, lawful.confined⟩
  rw [lawful.bucket, List.filterMap_append, List.getLast?_append]
  cases searched : served.found <;> simp [searched]

/-- A bucket is found, then the check of another one fails; then one worker stores something, and one that
is not there hides it. -/
theorem confined_after_failed_check :
    let settings : Settings := { threads := 2 }
    let service : Service := { buckets := [("bkt", {}), ("old", { status := none })] }
    let started := (Pool.create settings).run Service.answer {} service
    let calls : List Remote.Call :=
      [.findBucket "bkt", .findBucket "old", .upload 1 "n" [120] 0, .hide (-1) "n"]
    let all := serveAll Service.answer calls started.2.1 (⟨⟨2, [0, 1]⟩, none⟩, started.2.2)
    started.1 = .ok ⟨2, [0, 1]⟩ ∧
      ∃ first second stored hidden, all = [first, second, stored, hidden] ∧
        first.bucket = some "bkt" ∧ second.bucket = some "bkt" ∧
        stored.exchanges.map (·.call.target?) = [some (1, "bkt")] ∧
        hidden.Refused (.workerOutOfRange (-1) 2) := by
  intro settings service started calls all
  have made : started = (.ok ⟨2, [0, 1]⟩, started.2.1, started.2.2) := rfl
  have clients : ((Pool.create settings).exchanges Service.answer {} service).filterMap created? =
      [0, 1] := by
    decide +kernel
  obtain ⟨_, confined⟩ := confined_serveAll made calls
  rw [clients] at confined
  refine ⟨congrArg Prod.fst made, _, _, _, _, rfl, ?_⟩
  have first := confined [] _ [_, _, _] rfl
  have second := confined [_] _ [_, _] rfl
  have stored := confined [_, _] _ [_] rfl
  have hidden := confined [_, _, _] _ [] rfl
  have found : ((all.take 2).filterMap Served.found).getLast? = some "bkt" := by decide +kernel
  refine ⟨first.1.trans (by decide +kernel), second.1.trans found, ?_, ?_⟩
  · obtain ⟨client, own, aimed⟩ := (stored.2.2 1 rfl).directed (by decide) (by decide) "bkt" found
    cases own
    exact aimed
  · exact (hidden.2.2 (-1) rfl).outside (.inl (by decide))

end Connection

end Bucket

end FossilVault
