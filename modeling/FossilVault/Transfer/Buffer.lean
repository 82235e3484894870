import FossilVault.Session
/-
**Buffers.** Bytes in memory with a position to read from. Positions and sizes fit in sixty-three bits;
the position may lie behind the end, where reads give nothing; a closed buffer refuses everything but
being closed again.

* `read_eq` — what an open buffer gives for a size, and where it stands afterwards;
* `read_content`, `read_position` — a read keeps the content and moves by what it gave.
-/

namespace FossilVault

/-- Bytes in memory with a position. -/
structure Buffer where
  content : Bytes
  position : Nat := 0
  isClosed : Bool := false
  deriving DecidableEq, Repr

namespace Buffer

/-- The largest position, the largest integer of sixty-three bits. -/
def lastPosition : Int := 9223372036854775807

/-- The largest origin, the largest integer of thirty-one bits. -/
def lastOrigin : Int := 2147483647

/-- Tells whether a size or an offset fits in sixty-three bits and a sign. -/
def fits (value : Int) : Bool :=
  -lastPosition - 1 ≤ value && value ≤ lastPosition

/-- The refusal of a closed buffer. -/
def guard (buffer : Buffer) (step : Except Fault α × Buffer) : Except Fault α × Buffer :=
  if buffer.isClosed then (.error .closedBuffer, buffer) else step

/-- The bytes behind the position. -/
def rest (buffer : Buffer) : Bytes :=
  buffer.content.drop buffer.position

/-- Gives `bytes`, which stand at the position. -/
def advance (bytes : Bytes) (buffer : Buffer) : Except Fault Bytes × Buffer :=
  (.ok bytes, { buffer with position := buffer.position + bytes.length })

/-- The front of `bytes` that a size asks for; no size or a negative one asks for all. -/
def upTo (size : Option Int) (bytes : Bytes) : Bytes :=
  match size with
  | none => bytes
  | some size => if size < 0 then bytes else bytes.take size.toNat

/-- Refuses a size that fits in no position. -/
def sized (size : Option Int) (buffer : Buffer) (step : Except Fault Bytes × Buffer) :
    Except Fault Bytes × Buffer :=
  if size.all fits then buffer.guard step
  else (.error (.positionTooLarge "cannot fit 'int' into an index-sized integer"), buffer)

/-- Reads at most `size` bytes. -/
def read (size : Option Int) (buffer : Buffer) : Except Fault Bytes × Buffer :=
  buffer.sized size (buffer.advance (upTo size buffer.rest))

/-- The front of `bytes` up to its first line feed, that included. -/
def line (bytes : Bytes) : Bytes :=
  let before := bytes.takeWhile (· != 10)
  before ++ (bytes.drop before.length).take 1

/-- Reads at most `size` bytes of the line at the position. -/
def readLine (size : Option Int) (buffer : Buffer) : Except Fault Bytes × Buffer :=
  buffer.sized size (buffer.advance (upTo size (line buffer.rest)))

/-- Moves to an offset from a base that is already added, if that is a position. -/
def moveFrom (base : Nat) (offset : Int) (buffer : Buffer) : Except Fault Int × Buffer :=
  if offset > lastPosition - base then (.error (.positionTooLarge "new position too large"), buffer)
  else
    let position := (base + offset).toNat
    (.ok position, { buffer with position })

/-- Moves by an offset from the start (origin 0), from here (1) or from the end (2); the result is the
new position, which is never before the start. -/
def seek (offset origin : Int) (buffer : Buffer) : Except Fault Int × Buffer :=
  if !fits offset then
    (.error (.positionTooLarge "Python int too large to convert to C ssize_t"), buffer)
  else if origin < -lastOrigin - 1 || lastOrigin < origin then
    (.error (.positionTooLarge "Python int too large to convert to C int"), buffer)
  else buffer.guard <|
    if origin = 0 then
      if offset < 0 then (.error (.negativePosition offset), buffer) else buffer.moveFrom 0 offset
    else if origin = 1 then buffer.moveFrom buffer.position offset
    else if origin = 2 then buffer.moveFrom buffer.content.length offset
    else (.error (.unknownOrigin origin), buffer)

/-- The position. -/
def tell (buffer : Buffer) : Except Fault Int × Buffer :=
  buffer.guard (.ok buffer.position, buffer)

/-- All bytes, wherever the position is. -/
def value (buffer : Buffer) : Except Fault Bytes × Buffer :=
  buffer.guard (.ok buffer.content, buffer)

/-- Cuts the content to a length, by default the position, and leaves the position; a longer content is
not made. The result is the length asked for. -/
def truncate (length : Option Int) (buffer : Buffer) : Except Fault Int × Buffer :=
  if length.all fits then
    buffer.guard <|
      let length := length.getD buffer.position
      if length < 0 then (.error (.negativeCut length), buffer)
      else (.ok length, { buffer with content := buffer.content.take length.toNat })
  else (.error (.positionTooLarge "cannot fit 'int' into an index-sized integer"), buffer)

/-- Closes the buffer. -/
def close (buffer : Buffer) : Buffer :=
  { buffer with isClosed := true }

/-- An open buffer can be read, written and moved in. -/
def isReady (buffer : Buffer) : Except Fault Bool × Buffer :=
  buffer.guard (.ok true, buffer)

/-! ### What a read gives -/

theorem read_eq {size : Option Int} {buffer : Buffer} (fitting : size.all fits = true)
    (opened : buffer.isClosed = false) :
    buffer.read size = buffer.advance (upTo size buffer.rest) := by
  simp [read, sized, guard, fitting, opened]

theorem read_ok {size : Option Int} {buffer next : Buffer} {bytes : Bytes}
    (given : buffer.read size = (.ok bytes, next)) :
    bytes = upTo size buffer.rest ∧
      next = { buffer with position := buffer.position + bytes.length } := by
  unfold read sized guard at given
  split at given
  · split at given
    · cases given
    · cases given
      exact ⟨rfl, rfl⟩
  · cases given

theorem read_content {size : Option Int} {buffer next : Buffer} {bytes : Bytes}
    (given : buffer.read size = (.ok bytes, next)) : next.content = buffer.content := by
  rw [(read_ok given).2]

theorem read_position {size : Option Int} {buffer next : Buffer} {bytes : Bytes}
    (given : buffer.read size = (.ok bytes, next)) :
    next.position = buffer.position + bytes.length := by
  rw [(read_ok given).2]

theorem length_upTo_le (size : Option Int) (bytes : Bytes) : (upTo size bytes).length ≤ bytes.length := by
  unfold upTo
  split
  · exact Nat.le_refl _
  · split
    · exact Nat.le_refl _
    · simp only [List.length_take]
      omega

theorem length_read_le {size : Option Int} {buffer next : Buffer} {bytes : Bytes}
    (given : buffer.read size = (.ok bytes, next)) :
    bytes.length ≤ buffer.content.length - buffer.position := by
  rw [(read_ok given).1]
  refine Nat.le_trans (length_upTo_le size buffer.rest) ?_
  simp [rest]

end Buffer

end FossilVault
