import FossilVault.Session
/-
**Programs.** An operation of the vault is a program: a tree of the calls it makes on a remote, with a
continuation for every answer, a fault included. Between two calls it may read and change its session.
A program says nothing about the remote, so the same operation runs against a ledger in memory, a bucket
or a remote that fails at any call, alone or with its calls interleaved with those of others.

* `Program.run_bind` — running a sequence is running its parts one after the other;
* `Program.run_attempt` — an attempt runs alike and turns the outcome into a value;
* `Handler.watched_of_none`, `Handler.watched_of_some` — a watched call passes or fails as planned.
-/

namespace FossilVault

/-- The calls that can be made and what each is answered with. -/
structure Interface where
  Call : Type
  Reply : Call → Type

/-- A computation with an `α` as its result that makes calls of the interface and keeps a session. -/
inductive Program (I : Interface) (α : Type) : Type where
  /-- Ends with a result. -/
  | done (value : α)
  /-- Ends with a fault. -/
  | fail (fault : Fault)
  /-- Looks at the session. -/
  | look (next : Session → Program I α)
  /-- Puts a session in place of the present one. -/
  | keep (session : Session) (next : Program I α)
  /-- Makes a call and goes on with its answer. -/
  | call (c : I.Call) (next : Except Fault (I.Reply c) → Program I α)

/-- What a remote with the state `ω` does on each call: it answers and moves to its next state. It may
read an upload's body, which is why the session passes through it. -/
def Handler (I : Interface) (ω : Type) : Type :=
  (c : I.Call) → Session → ω → Except Fault (I.Reply c) × Session × ω

namespace Program

variable {I : Interface} {ω α β : Type}

/-- Goes on with the result, if there is one. -/
def bind : Program I α → (α → Program I β) → Program I β
  | .done value, next => next value
  | .fail fault, _ => .fail fault
  | .look rest, next => .look fun session => (rest session).bind next
  | .keep session rest, next => .keep session (rest.bind next)
  | .call c rest, next => .call c fun answer => (rest answer).bind next

instance : Monad (Program I) where
  pure := .done
  bind := bind

/-- Ends with a result in every case: the value, or the fault. -/
def attempt : Program I α → Program I (Except Fault α)
  | .done value => .done (.ok value)
  | .fail fault => .done (.error fault)
  | .look rest => .look fun session => (rest session).attempt
  | .keep session rest => .keep session rest.attempt
  | .call c rest => .call c fun answer => (rest answer).attempt

/-- The program that ends as told. -/
def ofExcept : Except Fault α → Program I α
  | .ok value => .done value
  | .error fault => .fail fault

/-- Makes one call and ends as it is answered. -/
def ask (c : I.Call) : Program I (I.Reply c) :=
  .call c ofExcept

/-- Changes the session by a step that may fail. -/
def within (step : Session → Except Fault α × Session) : Program I α :=
  .look fun session => .keep (step session).2 (ofExcept (step session).1)

/-- Changes the session. -/
def modify (step : Session → Session) : Program I Unit :=
  .look fun session => .keep (step session) (.done ())

/-- Logs a line. -/
def note (level : Log.Level) (part : Log.Part) (message : String) : Program I Unit :=
  modify (·.note level part message)

/-- Runs a program against a remote. -/
def run (h : Handler I ω) : Program I α → Session → ω → Except Fault α × Session × ω
  | .done value, session, world => (.ok value, session, world)
  | .fail fault, session, world => (.error fault, session, world)
  | .look next, session, world => (next session).run h session world
  | .keep session next, _, world => next.run h session world
  | .call c next, session, world =>
    let answered := h c session world
    (next answered.1).run h answered.2.1 answered.2.2

/-! ### Running -/

@[simp] theorem run_pure (h : Handler I ω) (value : α) (session : Session) (world : ω) :
    (pure value : Program I α).run h session world = (.ok value, session, world) := rfl

theorem run_bind (h : Handler I ω) (first : Program I α) (next : α → Program I β) (session : Session)
    (world : ω) :
    (first >>= next).run h session world =
      match first.run h session world with
      | (.ok value, session', world') => (next value).run h session' world'
      | (.error fault, session', world') => (.error fault, session', world') := by
  change (first.bind next).run h session world = _
  induction first generalizing session world with
  | done value => rfl
  | fail fault => rfl
  | look rest ih => exact ih session session world
  | keep kept rest ih => exact ih kept world
  | call c rest ih => exact ih _ _ _

theorem run_attempt (h : Handler I ω) (program : Program I α) (session : Session) (world : ω) :
    program.attempt.run h session world =
      let outcome := program.run h session world
      (.ok outcome.1, outcome.2.1, outcome.2.2) := by
  induction program generalizing session world with
  | done value => rfl
  | fail fault => rfl
  | look rest ih => exact ih session session world
  | keep kept rest ih => exact ih kept world
  | call c rest ih => exact ih _ _ _

@[simp] theorem run_ofExcept (h : Handler I ω) (outcome : Except Fault α) (session : Session)
    (world : ω) : (ofExcept outcome : Program I α).run h session world = (outcome, session, world) := by
  cases outcome <;> rfl

@[simp] theorem run_ask (h : Handler I ω) (c : I.Call) (session : Session) (world : ω) :
    (ask c).run h session world = h c session world := by
  simp [ask, run]

@[simp] theorem run_within (h : Handler I ω) (step : Session → Except Fault α × Session)
    (session : Session) (world : ω) :
    (within step : Program I α).run h session world =
      ((step session).1, (step session).2, world) := by
  simp [within, run]

@[simp] theorem run_modify (h : Handler I ω) (step : Session → Session) (session : Session)
    (world : ω) :
    (modify step : Program I Unit).run h session world = (.ok (), step session, world) := rfl

@[simp] theorem run_note (h : Handler I ω) (level : Log.Level) (part : Log.Part) (message : String)
    (session : Session) (world : ω) :
    (note level part message : Program I Unit).run h session world =
      (.ok (), session.note level part message, world) := rfl

end Program

/-! ### Watched remotes -/

/-- A remote with the record of the calls made on it, the latest first. -/
structure Watched (I : Interface) (ω : Type) where
  world : ω
  calls : List I.Call := []

/-- Records every call, and lets `plan` decide by the call and the number of calls of its sort made so
far, this one included, whether it fails instead of reaching the remote. -/
def Handler.watched {I : Interface} {ω κ : Type} [BEq κ] (sort : I.Call → κ)
    (plan : κ → Nat → Option Fault) (h : Handler I ω) : Handler I (Watched I ω) :=
  fun c session watched =>
    let calls := c :: watched.calls
    match plan (sort c) (calls.countP (sort · == sort c)) with
    | some fault => (.error fault, session, { watched with calls })
    | none =>
      let answered := h c session watched.world
      (answered.1, answered.2.1, ⟨answered.2.2, calls⟩)

section Watching

variable {I : Interface} {ω κ : Type} [BEq κ] {sort : I.Call → κ} {plan : κ → Nat → Option Fault}
  {h : Handler I ω} {c : I.Call} {session : Session} {watched : Watched I ω}

theorem Handler.watched_of_none
    (passes : plan (sort c) ((c :: watched.calls).countP (sort · == sort c)) = none) :
    h.watched sort plan c session watched =
      ((h c session watched.world).1, (h c session watched.world).2.1,
        ⟨(h c session watched.world).2.2, c :: watched.calls⟩) := by
  simp only [Handler.watched, passes]

theorem Handler.watched_of_some {fault : Fault}
    (fails : plan (sort c) ((c :: watched.calls).countP (sort · == sort c)) = some fault) :
    h.watched sort plan c session watched =
      (.error fault, session, { watched with calls := c :: watched.calls }) := by
  simp only [Handler.watched, fails]

end Watching

end FossilVault
