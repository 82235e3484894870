import FossilVault.Proofs.Copying
/-
**Readers.** The body of an upload is read, moved in and asked for its position. Without a limit it is in
nothing different from its buffer. With one it is different in one thing: a read of a size gives a piece at
most. A read without a size still gives all that is left, and each read is charged the KBs that it gives.

* `Buffer.usePaced` — a buffer of which no read of a size gives more than so many bytes;
* `Body.PacedRead` — what one read gives behind a limit, where it leads and what it is charged;
* `Body.useAll_paced` — all steps of a reader behind a limit are those of such a buffer;
* `Buffer.collects` — reads of any sizes, one after the other, give what is left;
* `Body.make_refines` — the body of an upload refines a buffer.
-/

namespace FossilVault

/-- What is done with a reader. -/
inductive ReaderStep
  | read (size : Option Int)
  | seek (offset origin : Int)
  | tell
  deriving DecidableEq, Repr

/-! ### Buffers -/

namespace Buffer

/-- Does a step with a buffer, which gives bytes or a position. -/
def use (step : ReaderStep) (buffer : Buffer) : Except Fault (Bytes ⊕ Int) × Buffer :=
  match step with
  | .read size => ((buffer.read size).1.map .inl, (buffer.read size).2)
  | .seek offset origin => ((buffer.seek offset origin).1.map .inr, (buffer.seek offset origin).2)
  | .tell => (buffer.tell.1.map .inr, buffer.tell.2)

/-- What a read of a size gives of the bytes that are left: no more than `largest` bytes, unless there is no
size or a negative one. -/
def paced (largest : Int) (size : Option Int) (left : Bytes) : Bytes :=
  match size with
  | none => left
  | some size => if size < 0 then left else left.take (min size largest).toNat

/-- Does a step with a buffer of which no read of a size gives more than `largest` bytes. -/
def usePaced (largest : Int) (step : ReaderStep) (buffer : Buffer) : Except Fault (Bytes ⊕ Int) × Buffer :=
  match step with
  | .read size =>
    let bytes := paced largest size buffer.rest
    (.ok (.inl bytes), { buffer with position := buffer.position + bytes.length })
  | step => buffer.use step

/-- Does steps one after the other: what each of them gives and the position that it leads to, and the buffer
in the end. -/
def useAll (use : ReaderStep → Buffer → Except Fault (Bytes ⊕ Int) × Buffer) :
    List ReaderStep → Buffer → List (Except Fault (Bytes ⊕ Int) × Nat) × Buffer
  | [], buffer => ([], buffer)
  | step :: rest, buffer =>
    let used := use step buffer
    let later := useAll use rest used.2
    ((used.1, used.2.position) :: later.1, later.2)

/-- Nothing but its position is changed by a step. -/
theorem use_moves (step : ReaderStep) (buffer : Buffer) :
    ∃ position, (buffer.use step).2 = { buffer with position } := by
  have guarded {α : Type} {step : Except Fault α × Buffer}
      (moves : ∃ position, step.2 = { buffer with position }) :
      ∃ position, (buffer.guard step).2 = { buffer with position } := by
    unfold guard
    split
    · exact ⟨_, rfl⟩
    · exact moves
  cases step with
  | tell =>
    show ∃ position, (buffer.guard (.ok (buffer.position : Int), buffer)).2 = _
    exact guarded ⟨_, rfl⟩
  | read size =>
    show ∃ position, (buffer.sized size _).2 = _
    unfold sized
    split
    · exact guarded ⟨_, rfl⟩
    · exact ⟨_, rfl⟩
  | seek offset origin =>
    have moved (base : Nat) : ∃ position, (buffer.moveFrom base offset).2 = { buffer with position } := by
      unfold moveFrom
      split <;> exact ⟨_, rfl⟩
    show ∃ position, (buffer.seek offset origin).2 = _
    unfold seek
    split
    · exact ⟨_, rfl⟩
    split
    · exact ⟨_, rfl⟩
    refine guarded ?_
    split
    · split
      · exact ⟨_, rfl⟩
      · exact moved 0
    split
    · exact moved _
    split
    · exact moved _
    · exact ⟨_, rfl⟩

theorem usePaced_moves (largest : Int) (step : ReaderStep) (buffer : Buffer) :
    ∃ position, (buffer.usePaced largest step).2 = { buffer with position } := by
  cases step with
  | read size => exact ⟨_, rfl⟩
  | seek | tell => exact buffer.use_moves _

theorem useAll_moves {use : ReaderStep → Buffer → Except Fault (Bytes ⊕ Int) × Buffer}
    (moves : ∀ step buffer, ∃ position, (use step buffer).2 = { buffer with position })
    (steps : List ReaderStep) (buffer : Buffer) :
    ∃ position, (buffer.useAll use steps).2 = { buffer with position } := by
  induction steps generalizing buffer with
  | nil => exact ⟨_, rfl⟩
  | cons step rest ih =>
    obtain ⟨position, moved⟩ := moves step buffer
    obtain ⟨position', later⟩ := ih (use step buffer).2
    exact ⟨position', later.trans (by rw [moved])⟩

/-- A read gives nothing for the size zero and at the end, and something otherwise. -/
theorem paced_eq_nil {largest : Int} (positive : 0 < largest) {size : Option Int} {left : Bytes}
    (none : paced largest size left = []) : size = some 0 ∨ left = [] := by
  cases size with
  | none => exact .inr none
  | some size =>
    unfold paced at none
    simp only at none
    split at none
    · exact .inr none
    · rcases List.take_eq_nil_iff.mp none with zero | void
      · refine .inl (congrArg some ?_)
        omega
      · exact .inr void

theorem paced_isPrefix (largest : Int) (size : Option Int) (left : Bytes) :
    paced largest size left <+: left := by
  unfold paced
  split
  · exact List.prefix_rfl
  · split
    · exact List.prefix_rfl
    · exact List.take_prefix _ _

/-- **Reads of any positive sizes give what is left**, one after the other: all of it once a read gives nothing
more, or once there were as many reads as there are bytes. -/
theorem collects {largest : Int} (positive : 0 < largest) {sizes : List Int}
    (some_size : ∀ size ∈ sizes, 0 < size) (buffer : Buffer) :
    ∃ pieces : List Bytes,
      (useAll (usePaced largest) (sizes.map fun size => .read (some size)) buffer).1.map Prod.fst =
          pieces.map (fun bytes => .ok (.inl bytes)) ∧
        pieces.flatten <+: buffer.rest ∧
        ([] ∈ pieces ∨ buffer.rest.length ≤ sizes.length → pieces.flatten = buffer.rest) := by
  induction sizes generalizing buffer with
  | nil =>
    refine ⟨[], rfl, List.nil_prefix, ?_⟩
    rintro (among | few)
    · cases among
    · exact (List.eq_nil_of_length_eq_zero (Nat.le_zero.mp few)).symm
  | cons size rest ih =>
    generalize first : paced largest (some size) buffer.rest = bytes
    let next : Buffer := { buffer with position := buffer.position + bytes.length }
    obtain ⟨pieces, gives, front, whole⟩ := ih (fun size among => some_size size (.tail _ among)) next
    have parts : bytes ++ next.rest = buffer.rest := by
      have dropped : next.rest = buffer.rest.drop bytes.length := List.drop_drop.symm
      rw [dropped, ← first]
      exact List.prefix_iff_eq_append.mp (paced_isPrefix _ _ _)
    have more (void : bytes = []) : buffer.rest = [] := by
      rcases paced_eq_nil positive (first.trans void) with zero | void
      · cases zero
        exact absurd (some_size 0 (.head _)) (Int.lt_irrefl 0)
      · exact void
    refine ⟨bytes :: pieces, ?_, ?_, ?_⟩
    · rw [List.map_cons, useAll, List.map_cons, List.map_cons]
      simp only [usePaced, first]
      exact congrArg _ gives
    · rw [List.flatten_cons, ← parts]
      exact (List.prefix_append_right_inj bytes).mpr front
    · intro enough
      rw [List.flatten_cons, ← parts]
      refine congrArg (bytes ++ ·) ?_
      by_cases void : bytes = []
      · rw [more void, List.append_eq_nil_iff] at parts
        rw [parts.2] at front ⊢
        exact List.prefix_nil.mp front
      · refine whole ?_
        rcases enough with among | few
        · exact .inl ((List.mem_cons.mp among).resolve_left (Ne.symm void))
        · have length := congrArg List.length parts
          have some_bytes := List.length_pos_iff.mpr void
          rw [List.length_append] at length
          rw [List.length_cons] at few
          exact .inr (by omega)

end Buffer

/-! ### One read behind a limit -/

/-- A piece asks for no more tokens than one second grants. -/
theorem letPass_asksWithin {rate : Int} (limited : 0 < rate) (channel : String) {count : Nat}
    (short : count ≤ (Throttle.piece rate).toNat) (session : Session) :
    session.AsksWithin rate (letPass (some ⟨rate, channel⟩) count session).2 := by
  rw [letPass, Throttle.consume]
  split
  · exact .of_same rfl
  · rename_i some_bytes
    have counted := Throttle.tokens_eq (lt_exactLimit (Nat.le_trans short (piece_le_copyLimit rate)))
    rw [Int.toNat_natCast, counted]
    obtain ⟨-, asked, front, own⟩ := acquireBy_asks ⟨rate, channel⟩ (tokensFor count) session.answers session
    refine ⟨asked, front, fun request among => ?_⟩
    rw [(own request among).2]
    exact tokensFor_bounds limited (by omega) short

namespace Body

theorem drain_asksWithin {rate : Int} (limited : 0 < rate) (channel : String) (before : List Bytes)
    (left : Bytes) (session : Session) :
    session.AsksWithin rate
      (drain (some ⟨rate, channel⟩) (Throttle.piece rate).toNat before left session).2.2 := by
  fun_induction drain (some ⟨rate, channel⟩) (Throttle.piece rate).toNat before left session with
  | case1 => exact .of_same rfl
  | case2 before left session first rest taken piece fault session' refused =>
    have asks := letPass_asksWithin limited channel (length_taken_le taken) session
    rw [refused] at asks
    exact asks
  | case3 before left session first rest taken piece session' passed ih =>
    have asks := letPass_asksWithin limited channel (length_taken_le taken) session
    rw [passed] at asks
    exact asks.trans ih

/-- What a read gives behind a limit: these bytes, behind which the buffer stands then. They are charged their
KBs, begun ones included, and no more tokens are asked for at once than one second grants. For no bytes no
token is asked for. -/
structure PacedRead (rate : Int) (buffer : Buffer) (session : Session) (bytes : Bytes)
    (read : Except Fault Bytes × Buffer × Session) : Prop where
  gives : read.1 = .ok bytes
  moves : read.2.1 = { buffer with position := buffer.position + bytes.length }
  idle : bytes = [] → read.2.2 = session
  granted : read.2.2.granted = session.granted + (bytes.length + 1023) / 1024
  asks : session.AsksWithin rate read.2.2

variable {rate : Int} {channel : String} {buffer : Buffer}

theorem drain_nil (throttle : Option Throttle) (size : Nat) (before : List Bytes) (session : Session) :
    drain throttle size before [] session = (.ok before.reverse.flatten, [], session) := by
  unfold drain
  split
  · rfl
  · rename_i taken
    simp at taken

/-- **A read without a size gives all that is left.** -/
theorem readAll_paced (limited : 0 < rate) (opened : buffer.isClosed = false) (session : Session) :
    PacedRead rate buffer session buffer.rest
      (readAll (some ⟨rate, channel⟩) (Throttle.piece rate).toNat buffer session) := by
  have positive : 0 < (Throttle.piece rate).toNat := by
    have := Throttle.piece_pos limited
    omega
  have few := piece_le_copyLimit rate
  have charged := drain_granted (some ⟨rate, channel⟩) positive (tokenSize_dvd_piece rate) few [] buffer.rest
    session
  have asks := drain_asksWithin limited channel [] buffer.rest session
  obtain ⟨session', drained, -⟩ := drain_ok (some ⟨rate, channel⟩) positive few [] buffer.rest session
  have idle (void : buffer.rest = []) : session' = session := by
    rw [void, drain_nil] at drained
    exact (congrArg (·.2.2) drained).symm
  rw [drained] at charged asks
  rw [readAll, if_neg (by rw [opened]; exact Bool.false_ne_true)]
  simp only [drained]
  exact ⟨rfl, rfl, idle, charged, asks⟩

/-- **A read of a size gives a piece at most.** -/
theorem pull_paced (limited : 0 < rate) {size : Int} (sized : 0 ≤ size) (opened : buffer.isClosed = false)
    (session : Session) :
    PacedRead rate buffer session (buffer.rest.take (min size (Throttle.piece rate)).toNat)
      (pull (some ⟨rate, channel⟩) (min size (Throttle.piece rate)) buffer session) := by
  have positive := Throttle.piece_pos limited
  have few := piece_le_copyLimit rate
  have buffered : (copyLimit : Int) = 65536 := rfl
  have fitting : (some (min size (Throttle.piece rate))).all Buffer.fits = true := by
    rw [Option.all_some, Buffer.fits, Buffer.lastPosition, Bool.and_eq_true, decide_eq_true_iff,
      decide_eq_true_iff]
    omega
  have given : buffer.read (some (min size (Throttle.piece rate))) =
      buffer.advance (buffer.rest.take (min size (Throttle.piece rate)).toNat) := by
    rw [Buffer.read_eq fitting opened, Buffer.upTo, if_neg (by omega)]
  have short : (buffer.rest.take (min size (Throttle.piece rate)).toNat).length ≤
      (Throttle.piece rate).toNat := by
    rw [List.length_take]
    omega
  generalize buffer.rest.take (min size (Throttle.piece rate)).toNat = piece at given short ⊢
  have charged := letPass_granted (some ⟨rate, channel⟩) (Nat.le_trans short few) session
  have asks := letPass_asksWithin limited channel short session
  obtain ⟨session', passed, -⟩ := letPass_ok (some ⟨rate, channel⟩) (Nat.le_trans short few) session
  have idle (void : piece = []) : session' = session := by
    rw [void] at passed
    exact (congrArg Prod.snd passed).symm
  rw [passed] at charged asks
  simp only [pull, given, Buffer.advance, passed]
  exact ⟨rfl, rfl, idle, charged, asks⟩

/-- **A read behind a limit gives a piece, or all that is left.** -/
theorem readAt_paced (limited : 0 < rate) (opened : buffer.isClosed = false) (size : Option Int)
    (session : Session) :
    PacedRead rate buffer session (Buffer.paced (Throttle.piece rate) size buffer.rest)
      (readAt ⟨rate, channel⟩ size buffer session) := by
  cases size with
  | none => exact readAll_paced limited opened session
  | some size =>
    unfold readAt Buffer.paced
    by_cases negative : size < 0
    · have unsized : (some size).filter (0 ≤ ·) = none := by simpa [Option.filter] using negative
      simp only [unsized, if_pos negative]
      exact readAll_paced limited opened session
    · have sized : (some size).filter (0 ≤ ·) = some size := by simpa [Option.filter] using negative
      simp only [sized, if_neg negative]
      exact pull_paced limited (Int.not_lt.mp negative) opened session

/-! ### All uses of a reader -/

/-- Does a step with a reader: it is read through its throttle, and is moved in as its buffer. -/
def use (step : ReaderStep) (body : Body) (session : Session) :
    Except Fault (Bytes ⊕ Int) × Body × Session :=
  match step with
  | .read size =>
    let given := body.read size session
    (given.1.map .inl, given.2)
  | step =>
    let moved := body.buffer.use step
    (moved.1, { body with buffer := moved.2 }, session)

/-- Does steps one after the other: what each of them gives and the position that it leads to, with the reader
and the session in the end. -/
def useAll : List ReaderStep → Body → Session → List (Except Fault (Bytes ⊕ Int) × Nat) × Body × Session
  | [], body, session => ([], body, session)
  | step :: rest, body, session =>
    let used := body.use step session
    let later := useAll rest used.2.1 used.2.2
    ((used.1, used.2.1.buffer.position) :: later.1, later.2)

/-- **Without a limit a reader is its buffer.** -/
theorem useAll_unlimited (steps : List ReaderStep) (buffer : Buffer) (session : Session) :
    useAll steps ⟨buffer, none⟩ session =
      let used := buffer.useAll Buffer.use steps
      (used.1, ⟨used.2, none⟩, session) := by
  induction steps generalizing buffer with
  | nil => rfl
  | cons step rest ih =>
    have same : use step ⟨buffer, none⟩ session =
        ((buffer.use step).1, ⟨(buffer.use step).2, none⟩, session) := by
      cases step <;> rfl
    rw [useAll, same]
    simp only [ih]
    rfl

/-- **With a limit a reader is a buffer of which no read of a size gives more than a piece.** -/
theorem useAll_paced (limited : 0 < rate) (steps : List ReaderStep) (opened : buffer.isClosed = false)
    (session : Session) :
    let used := useAll steps ⟨buffer, some ⟨rate, channel⟩⟩ session
    let used' := buffer.useAll (Buffer.usePaced (Throttle.piece rate)) steps
    used.1 = used'.1 ∧ used.2.1 = ⟨used'.2, some ⟨rate, channel⟩⟩ := by
  induction steps generalizing buffer session with
  | nil => exact ⟨rfl, rfl⟩
  | cons step rest ih =>
    have same : ∃ session', use step ⟨buffer, some ⟨rate, channel⟩⟩ session =
        ((buffer.usePaced (Throttle.piece rate) step).1,
          ⟨(buffer.usePaced (Throttle.piece rate) step).2, some ⟨rate, channel⟩⟩, session') := by
      cases step with
      | read size =>
        have ⟨gives, moves, _, _, _⟩ := @readAt_paced rate channel buffer limited opened size session
        refine ⟨_, Prod.ext ?_ (Prod.ext ?_ rfl)⟩
        · exact congrArg (Except.map Sum.inl) gives
        · exact congrArg (Body.mk · (some ⟨rate, channel⟩)) moves
      | seek | tell => exact ⟨session, rfl⟩
    obtain ⟨session', same⟩ := same
    obtain ⟨position, moved⟩ := buffer.usePaced_moves (Throttle.piece rate) step
    have later := @ih (buffer.usePaced (Throttle.piece rate) step).2 (by rw [moved]; exact opened) session'
    simp only [useAll, same, Buffer.useAll]
    exact ⟨congrArg _ later.1, later.2⟩

/-- What a reader of a content does behind a limit, wherever it stands. A read of a size gives a piece at most,
and every other one all that is left; nothing is given only at the end, or when nothing is asked for; and reads
of any positive sizes, one after the other, give all that is left. -/
structure ReadsWithin (rate : Int) (content : Bytes) (body : Body) (session : Session) : Prop where
  holds : body.buffer.content = content
  reads : ∀ size, PacedRead rate body.buffer session
    (Buffer.paced (min 65536 (rate * 1024)) size (content.drop body.buffer.position))
    ((body.read size session).1, (body.read size session).2.1.buffer, (body.read size session).2.2)
  empty : ∀ size, (body.read size session).1 = .ok [] → size = some 0 ∨ content.length ≤ body.buffer.position
  collects : ∀ sizes : List Int, (∀ size ∈ sizes, 0 < size) → ∃ pieces : List Bytes,
    (body.useAll (sizes.map fun size => .read (some size)) session).1.map Prod.fst =
        pieces.map (fun bytes => .ok (.inl bytes)) ∧
      pieces.flatten <+: content.drop body.buffer.position ∧
      ([] ∈ pieces ∨ (content.drop body.buffer.position).length ≤ sizes.length →
        pieces.flatten = content.drop body.buffer.position)

theorem readsWithin (limited : 0 < rate) (opened : buffer.isClosed = false) (session : Session) :
    ReadsWithin rate buffer.content ⟨buffer, some ⟨rate, channel⟩⟩ session where
  holds := rfl
  reads size := readAt_paced limited opened size session
  empty size none := by
    have gives := (@readAt_paced rate channel buffer limited opened size session).gives
    have void : Buffer.paced (Throttle.piece rate) size buffer.rest = [] :=
      Except.ok.inj (gives.symm.trans none)
    exact (Buffer.paced_eq_nil (Throttle.piece_pos limited) void).imp_right List.drop_eq_nil_iff.mp
  collects sizes some_size := by
    obtain ⟨pieces, gives, whole⟩ := Buffer.collects (Throttle.piece_pos limited) some_size buffer
    refine ⟨pieces, ?_, whole⟩
    rw [(useAll_paced limited _ opened session).1]
    exact gives

/-- **The body of an upload refines a buffer**, whatever is done with it and whatever the limiter answers.
Without a limit every result and every position is that of the buffer, and no token is asked for. With one they
are those of a buffer of which no read of a size gives more than a piece; and wherever the steps lead, each
read gives just that, and is charged for it. -/
theorem make_refines (content : Bytes) (rate : Int) (channel : String) (made session : Session)
    (steps : List ReaderStep) :
    let used := (make content rate channel made).1.useAll steps session
    (rate ≤ 0 → (used.1, used.2.1.buffer) = Buffer.useAll Buffer.use steps { content } ∧ used.2.2 = session) ∧
      (1 ≤ rate →
        (used.1, used.2.1.buffer) =
            Buffer.useAll (Buffer.usePaced (min 65536 (rate * 1024))) steps { content } ∧
          ReadsWithin rate content used.2.1 used.2.2) := by
  intro used
  have throttled : (make content rate channel made).1 = ⟨{ content }, Throttle.of rate channel⟩ :=
    congrArg (Body.mk { content }) (Session.throttleFor_fst rate channel made)
  constructor
  · intro free
    have unlimited : (make content rate channel made).1 = ⟨{ content }, none⟩ :=
      throttled.trans (congrArg (Body.mk { content }) (if_pos free))
    have same := useAll_unlimited steps { content } session
    rw [← unlimited] at same
    rw [show used = _ from same]
    exact ⟨rfl, rfl⟩
  · intro limited
    have paced : (make content rate channel made).1 = ⟨{ content }, some ⟨rate, channel⟩⟩ :=
      throttled.trans (congrArg (Body.mk { content }) (if_neg (by omega)))
    obtain ⟨gives, leads⟩ := @useAll_paced rate channel { content } limited steps rfl session
    obtain ⟨position, moved⟩ :=
      Buffer.useAll_moves (Buffer.usePaced_moves (Throttle.piece rate)) steps { content }
    rw [← paced] at gives leads
    have place : used.2.1 = ⟨{ content, position }, some ⟨rate, channel⟩⟩ := leads.trans (by rw [moved])
    refine ⟨Prod.ext gives (congrArg Body.buffer leads), ?_⟩
    rw [place]
    exact @readsWithin rate channel { content, position } limited rfl used.2.2

/-- Of fifteen hundred bytes a read of two thousand gives a piece of one KB and the next one gives the rest; a
read from behind the end gives nothing, and one without a size gives all from where it was moved to. -/
theorem make_refines_of_two_pieces :
    let content : Bytes := List.replicate 1500 7
    let steps : List ReaderStep :=
      [.read (some 2000), .read (some 2000), .seek 10 2, .read (some 1), .seek (-1400) 2, .read none]
    let used := (make content 1 "worker" {}).1.useAll steps { answers := [false, true, false] }
    used.1.map (fun result => (result.1.toOption.map (Sum.map List.length id), result.2)) =
        [(some (.inl 1024), 1024), (some (.inl 476), 1500), (some (.inr 1510), 1510), (some (.inl 0), 1510),
          (some (.inr 100), 100), (some (.inl 1400), 1500)] ∧
      ReadsWithin 1 content used.2.1 used.2.2 := by
  intro content steps used
  obtain ⟨same, within⟩ :=
    (make_refines content 1 "worker" {} { answers := [false, true, false] } steps).2 (by decide)
  refine ⟨?_, within⟩
  have results := congrArg Prod.fst same
  simp only at results
  rw [results]
  decide +kernel

end Body

end FossilVault
