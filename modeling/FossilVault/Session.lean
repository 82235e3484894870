import FossilVault.Fault
import FossilVault.Log
import FossilVault.Number.Double
/-
**Sessions.** All that one running program keeps to itself while it talks to a remote: the throttles it
made, what its limiters answer, the clock it reads, the streams it opened, the place it downloads to and
the lines it logged. A remote sees none of it.

* `Session.note_log`, `Session.note_throttles` — a note changes the log and nothing else;
* `Sink.data_append` — an accepted piece goes to the end of the data.
-/

namespace FossilVault

/-- The content of an object. -/
abbrev Bytes := List UInt8

/-- A throttle: its rate in KB per second, and its channel unless it belongs to none. -/
structure Throttle where
  rate : Int
  channel : Option String := none
  deriving DecidableEq, Repr

instance : Coe Throttle Int := ⟨Throttle.rate⟩

/-- One request for tokens of a throttle and whether it was granted. -/
structure Acquisition where
  throttle : Throttle
  weight : Nat
  granted : Bool
  deriving DecidableEq, Repr

/-- The rate of the throttle that was asked. -/
def Acquisition.rate (acquisition : Acquisition) : Int :=
  acquisition.throttle.rate

/-- A reading of the monotonic clock, in seconds. -/
inductive Instant
  | whole (seconds : Int)
  | fraction (seconds : Float)

/-- A reading as a double, unless it is beyond every double. -/
def Instant.toDouble : Instant → Except Fault Float
  | .whole seconds =>
    if Number.significant seconds.natAbs 1 < Number.doubleLimit then .ok (.ofInt seconds)
    else .error .secondsTooLarge
  | .fraction seconds => .ok seconds

/-- The time between two readings, exact between whole ones. -/
def Instant.since (start finish : Instant) : Except Fault Float :=
  match start, finish with
  | .whole start, .whole finish => (whole (finish - start)).toDouble
  | start, finish => do return (← finish.toDouble) - (← start.toDouble)

/-- The seconds between two readings, with two places after the point. -/
def Instant.elapsed (start finish : Instant) : Except Fault String :=
  (start.since finish).map Number.twoPlaces

/-! ### Destinations -/

/-- A destination: the pieces written so far, the latest first, and what it refuses. The refusal is
decided by the number of bytes held and the piece that would follow them. -/
structure Sink where
  pieces : List Bytes := []
  held : Nat := 0
  refuse : Nat → Bytes → Option Fault := fun _ _ => none

namespace Sink

/-- A destination for at most `limit` bytes. -/
def limited (limit : Nat) : Sink where
  refuse held piece := if limit < held + piece.length then some (.external .system "disk full") else none

/-- A destination that takes nothing. -/
def closed (fault : Fault) : Sink where
  refuse _ _ := some fault

/-- All bytes the destination holds, in order. -/
def data (sink : Sink) : Bytes :=
  sink.pieces.reverse.flatten

/-- The sizes of the pieces, in order. -/
def writes (sink : Sink) : List Nat :=
  (sink.pieces.map List.length).reverse

/-- Puts a piece at the end, or refuses it whole. -/
def write (piece : Bytes) (sink : Sink) : Except Fault Sink :=
  match sink.refuse sink.held piece with
  | some fault => .error fault
  | none => .ok { sink with pieces := piece :: sink.pieces, held := sink.held + piece.length }

theorem data_append {piece : Bytes} {sink next : Sink} (accepted : sink.write piece = .ok next) :
    next.data = sink.data ++ piece := by
  unfold write at accepted
  split at accepted
  · cases accepted
  · cases accepted
    simp [data]

end Sink

/-! ### The session -/

/-- What a running program keeps to itself. -/
structure Session where
  /-- The channel and the rate of every throttle made, in the order of making. -/
  throttles : List (String × Int) := []
  /-- The limiters' next answers; when they are used up every request is granted. -/
  answers : List Bool := []
  /-- The requests for tokens, the latest first. -/
  requests : List Acquisition := []
  /-- The clock's next readings; the last one stays. -/
  clock : List Instant := []
  /-- The lines logged, the latest first. -/
  log : List Log.Line := []
  /-- The place that downloads go to. -/
  sink : Sink := {}
  /-- How many source streams were opened. -/
  opened : Nat := 0
  /-- How many source streams were closed. -/
  released : Nat := 0

namespace Session

/-- Adds a line to the log. -/
def note (level : Log.Level) (part : Log.Part) (message : String) (session : Session) : Session :=
  { session with log := ⟨level, part, message⟩ :: session.log }

/-- Reads the clock. -/
def readClock (session : Session) : Instant × Session :=
  match session.clock with
  | [] => (.fraction 0, session)
  | [last] => (last, session)
  | first :: second :: rest => (first, { session with clock := second :: rest })

@[simp] theorem note_log (level : Log.Level) (part : Log.Part) (message : String) (session : Session) :
    (session.note level part message).log = ⟨level, part, message⟩ :: session.log := rfl

@[simp] theorem note_throttles (level : Log.Level) (part : Log.Part) (message : String)
    (session : Session) : (session.note level part message).throttles = session.throttles := rfl

@[simp] theorem note_requests (level : Log.Level) (part : Log.Part) (message : String)
    (session : Session) : (session.note level part message).requests = session.requests := rfl

@[simp] theorem note_sink (level : Log.Level) (part : Log.Part) (message : String)
    (session : Session) : (session.note level part message).sink = session.sink := rfl

end Session

end FossilVault
