import FossilVault.Throttle
/-
**Copying.** A copy takes pieces from a source and writes them to the session's destination until the
source has no more, each piece no larger than the throttle lets pass in one second. A source may give
less than it was asked for, and may fail at any read; a destination may refuse any piece.

* `Source.read_content` — what a read gives is the front of what the source held;
* `copyFrom_data` — whatever happens, the destination gains a prefix of the source's content.
-/

namespace FossilVault

/-- A stream to read from: the bytes not yet read, the number of reads made and the sizes asked for, the
latest first, and how many bytes it is ready to give, by the number of reads made before and the size
asked for. -/
structure Source where
  content : Bytes
  made : Nat := 0
  asked : List Nat := []
  supply : Nat → Nat → Except Fault Nat := fun _ size => .ok size

namespace Source

/-- A source that gives at most `limit` bytes at a time. -/
def short (content : Bytes) (limit : Nat) : Source where
  content
  supply _ _ := .ok limit

/-- A source that fails once `count` reads were made. -/
def failingAfter (count : Nat) (source : Source) : Source :=
  { source with
    supply := fun made size =>
      if count ≤ made then .error (.external .system "connection reset") else source.supply made size }

/-- Reads at most `size` bytes; no byte means that the source is used up. -/
def read (size : Nat) (source : Source) : Except Fault Bytes × Source :=
  let next := { source with made := source.made + 1, asked := size :: source.asked }
  match source.supply source.made size with
  | .error fault => (.error fault, next)
  | .ok ready =>
    let count := min ready size
    (.ok (source.content.take count), { next with content := source.content.drop count })

/-- The sizes asked for, in order. -/
def reads (source : Source) : List Nat :=
  source.asked.reverse

theorem read_content {size : Nat} {source next : Source} {piece : Bytes}
    (given : source.read size = (.ok piece, next)) : piece ++ next.content = source.content := by
  unfold read at given
  simp only at given
  split at given
  · cases given
  · cases given
    exact List.take_append_drop _ _

end Source

/-- Copies pieces of at most `size` bytes until the source is used up; `copied` bytes went before. -/
def copyFrom (throttle : Option Throttle) (size : Nat) (source : Source) (session : Session)
    (copied : Nat) : Except Fault Nat × Source × Session :=
  match _ : source.read size with
  | (.error fault, next) => (.error fault, next, session)
  | (.ok [], next) => (.ok copied, next, session)
  | (.ok (first :: rest), next) =>
    let piece := first :: rest
    match letPass throttle piece.length session with
    | (.error fault, session) => (.error fault, next, session)
    | (.ok (), session) =>
      match session.sink.write piece with
      | .error fault => (.error fault, next, session)
      | .ok sink => copyFrom throttle size next { session with sink } (copied + piece.length)
termination_by source.content.length
decreasing_by
  rename_i given
  have split := congrArg List.length (Source.read_content given)
  simp only [List.length_append, List.length_cons] at split
  omega

/-- Copies the source to the session's destination at no more than `rate` KB per second; the result is
the number of bytes copied. -/
def copy (rate : Int) (channel : String) (source : Source) (session : Session) :
    Except Fault Nat × Source × Session :=
  match session.throttleFor rate channel with
  | (some throttle, session) =>
    copyFrom (some throttle) (Throttle.piece throttle).toNat source session 0
  | (none, session) => copyFrom none copyLimit source session 0

/-! ### The destination holds a prefix -/

theorem copyFrom_data (throttle : Option Throttle) (size : Nat) (source : Source) (session : Session)
    (copied : Nat) :
    ∃ front rest, source.content = front ++ rest ∧
      (copyFrom throttle size source session copied).2.2.sink.data = session.sink.data ++ front := by
  fun_induction copyFrom throttle size source session copied with
  | case1 => exact ⟨[], _, rfl, (List.append_nil _).symm⟩
  | case2 => exact ⟨[], _, rfl, (List.append_nil _).symm⟩
  | case3 source session copied first rest next given piece fault session' refused =>
    have kept := letPass_sink throttle piece.length session
    rw [refused] at kept
    exact ⟨[], _, rfl, by simp [show session'.sink = session.sink from kept]⟩
  | case4 source session copied first rest next given piece session' admitted fault refused =>
    have kept := letPass_sink throttle piece.length session
    rw [admitted] at kept
    exact ⟨[], _, rfl, by simp [show session'.sink = session.sink from kept]⟩
  | case5 source session copied first rest next given piece session' admitted sink accepted ih =>
    have kept := letPass_sink throttle piece.length session
    rw [admitted] at kept
    obtain ⟨front, rest', split, gained⟩ := ih
    refine ⟨piece ++ front, rest', ?_, ?_⟩
    · rw [← Source.read_content given, split, List.append_assoc]
    · rw [gained, Sink.data_append accepted, List.append_assoc,
        show session'.sink = session.sink from kept]

end FossilVault
