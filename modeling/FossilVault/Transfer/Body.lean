import FossilVault.Throttle
import FossilVault.Transfer.Buffer
/-
**Bodies.** The body of an upload is a buffer whose reads pass a throttle. It can still be moved in, so
that a request can be sent again. With a throttle one read of a given size gives at most one piece, and
a read without a size gives all that is left, piece by piece.

* `Body.read_unthrottled` — without a throttle a body reads as its buffer does.
-/

namespace FossilVault

/-- A buffer whose reads pass a throttle, if there is one. -/
structure Body where
  buffer : Buffer
  throttle : Option Throttle

namespace Body

/-- A body for a content, with the throttle of a channel. -/
def make (content : Bytes) (rate : Int) (channel : String) (session : Session) : Body × Session :=
  let throttled := session.throttleFor rate channel
  (⟨{ content }, throttled.1⟩, throttled.2)

/-- Lets all bytes of `left` pass the throttle, in pieces of at most `size` bytes; `before` passed already,
the latest piece first. What comes back is all that passed, and what is left when a piece may not pass. -/
def drain (throttle : Option Throttle) (size : Nat) (before : List Bytes) (left : Bytes) (session : Session) :
    Except Fault Bytes × Bytes × Session :=
  match _ : left.take size with
  | [] => (.ok before.reverse.flatten, left, session)
  | first :: rest =>
    let piece := first :: rest
    match letPass throttle piece.length session with
    | (.error fault, session) => (.error fault, left.drop size, session)
    | (.ok (), session) => drain throttle size (piece :: before) (left.drop size) session
termination_by left.length
decreasing_by
  rename_i taken
  have some_taken := congrArg List.length taken
  simp only [List.length_take, List.length_cons] at some_taken
  simp only [List.length_drop]
  omega

/-- Reads all that is left in a buffer, piece by piece through the throttle. -/
def readAll (throttle : Option Throttle) (size : Nat) (buffer : Buffer) (session : Session) :
    Except Fault Bytes × Buffer × Session :=
  if buffer.isClosed then (.error .closedBuffer, buffer, session)
  else
    let left := buffer.rest
    let drained := drain throttle size [] left session
    let position := buffer.position + (left.length - drained.2.1.length)
    (drained.1, { buffer with position }, drained.2.2)

/-- Reads at most `size` bytes and lets them pass the throttle. -/
def pull (throttle : Option Throttle) (size : Int) (buffer : Buffer) (session : Session) :
    Except Fault Bytes × Buffer × Session :=
  match buffer.read (some size) with
  | (.error fault, next) => (.error fault, next, session)
  | (.ok bytes, next) =>
    match letPass throttle bytes.length session with
    | (.error fault, session) => (.error fault, next, session)
    | (.ok (), session) => (.ok bytes, next, session)

/-- Reads from a buffer behind a throttle. -/
def readAt (throttle : Throttle) (size : Option Int) (buffer : Buffer) (session : Session) :
    Except Fault Bytes × Buffer × Session :=
  match size.filter (0 ≤ ·) with
  | none => readAll (some throttle) (Throttle.piece throttle).toNat buffer session
  | some size => pull (some throttle) (min size (Throttle.piece throttle)) buffer session

/-- Reads at most `size` bytes, all that is left when there is no size or a negative one. -/
def read (size : Option Int) (body : Body) (session : Session) :
    Except Fault Bytes × Body × Session :=
  match body.throttle with
  | none =>
    let given := body.buffer.read size
    (given.1, { body with buffer := given.2 }, session)
  | some throttle =>
    let given := readAt throttle size body.buffer session
    (given.1, { body with buffer := given.2.1 }, given.2.2)

theorem read_unthrottled {body : Body} (free : body.throttle = none) (size : Option Int)
    (session : Session) :
    body.read size session =
      ((body.buffer.read size).1, { body with buffer := (body.buffer.read size).2 }, session) := by
  simp [read, free]

end Body

end FossilVault
