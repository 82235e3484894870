import FossilVault.Program
/-
**Timed operations.** A transfer reports how long it took, whether it ended with a result or a fault; the
result or the fault is passed on as it is, unless the time is beyond every double and cannot be told. An
interrupt is no failure of the transfer: it passes without a line, and without a second look at the clock.

* `Program.run_timed` — how a timed program ends and what it leaves behind.
-/

namespace FossilVault

/-- What a timed operation reports when it has ended. -/
def report (name path : String) (worker : Int) (elapsed : String) (outcome : Except Fault α) : Log.Line :=
  let what := name ++ " of '" ++ path ++ "' on worker " ++ toString worker
  match outcome with
  | .ok _ => ⟨.debug, .timing, what ++ " completed in " ++ elapsed ++ "s"⟩
  | .error fault =>
    ⟨.error, .timing, what ++ " failed after " ++ elapsed ++ "s: " ++ fault.message⟩

/-- Tells whether an outcome is an interrupt. -/
def isInterrupted : Except Fault α → Bool
  | .ok _ => false
  | .error fault => fault.isInterrupt

namespace Program

variable {I : Interface} {α : Type}

/-- Reads the clock. -/
def clock : Program I Instant :=
  within fun session => (.ok session.readClock.1, session.readClock.2)

/-- The program with a report of its duration. -/
def timed (name : String) (worker : Int) (path : String) (body : Program I α) : Program I α := do
  let start ← clock
  let outcome ← body.attempt
  if isInterrupted outcome then
    ofExcept outcome
  else
    let finish ← clock
    let elapsed ← ofExcept (start.elapsed finish)
    let line := report name path worker elapsed outcome
    note line.level line.part line.message
    ofExcept outcome

/-- The outcome of a timed program: that of its body, unless there is no telling how long it took. -/
def timedOutcome (start finish : Instant) (outcome : Except Fault α) : Except Fault α :=
  if isInterrupted outcome then outcome else (start.elapsed finish).bind fun _ => outcome

/-- A timed program leaves the remote as its body does, and ends as its body does once the time is told. -/
theorem run_timed {ω : Type} (h : Handler I ω) (name : String) (worker : Int) (path : String)
    (body : Program I α) (session : Session) (world : ω) :
    let ended := body.run h session.readClock.2 world
    ((timed name worker path body).run h session world).1 =
        timedOutcome session.readClock.1 ended.2.1.readClock.1 ended.1 ∧
      ((timed name worker path body).run h session world).2.2 = ended.2.2 := by
  unfold timed clock timedOutcome
  simp only [run_bind, run_within, run_attempt]
  split
  · constructor <;> simp
  · cases told : session.readClock.1.elapsed
      (body.run h session.readClock.2 world).2.1.readClock.1 with
    | error fault => simp [run_bind, told, Except.bind]
    | ok elapsed => simp [run_bind, told, Except.bind]

end Program

end FossilVault
