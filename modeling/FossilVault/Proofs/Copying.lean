import FossilVault.Proofs.Drawing
/-
**Copies, moment by moment.** A copy reads a piece, asks for the tokens of it until they are granted, and writes
it. At every moment of this the destination holds a prefix of the content, and all that it holds is paid for.
A copy that ends with a fault passes on what a read or a write raised; every other one has copied all.

* `Copying.step` — one read, one request for tokens or one write;
* `Copying.finish_step` — from every moment on, a copy goes on as `copy` does, and `Copying.ends` with that;
* `Copying.Sound`, `Copying.Paid` — what holds at every moment, by `Sound.step` and `Paid.step`;
* `copy_momentwise` — what a copy does at every moment, and how it ends.
-/

namespace FossilVault

/-! ### Moments -/

/-- What a copy does next. -/
inductive Phase
  /-- It reads the next piece. -/
  | reading
  /-- It asks a throttle for the tokens of a piece. -/
  | asking (throttle : Throttle) (weight : Nat) (piece : Bytes)
  /-- It writes a piece. -/
  | writing (piece : Bytes)
  /-- It does nothing more. -/
  | ended (outcome : Except Fault Nat)

/-- A moment of a copy. -/
structure Copying where
  source : Source
  session : Session
  copied : Nat := 0
  phase : Phase := .reading

/-- One request for tokens: whether it is granted, and the session after it. -/
def Throttle.request (throttle : Throttle) (weight : Nat) (session : Session) : Bool × Session :=
  match session.answers with
  | false :: answers =>
    (false, { session with answers, requests := ⟨throttle, weight, false⟩ :: session.requests }.note .debug
      .throttle ("Throttle at " ++ toString throttle.rate ++ " KB/s still waiting for " ++ toString weight ++
        " KB"))
  | answers =>
    (true, { session with
      answers := answers.tail, requests := ⟨throttle, weight, true⟩ :: session.requests })

/-- Tokens are asked for until they are granted. -/
theorem Throttle.acquire_request (throttle : Throttle) (weight : Nat) (session : Session) :
    throttle.acquire weight session =
      let asked := throttle.request weight session
      if asked.1 then asked.2 else throttle.acquire weight asked.2 := by
  have stale (answers answers' : List Bool) (session : Session) :
      throttle.acquireBy weight answers { session with answers := answers' } =
        throttle.acquireBy weight answers session := by
    induction answers generalizing session with
    | nil => rfl
    | cons granted rest ih =>
      cases granted with
      | true => rfl
      | false =>
        symm
        exact (ih _).symm
  obtain ⟨throttles, answers, requests, clock, log, sink, opened, released⟩ := session
  cases answers with
  | nil => rfl
  | cons granted rest =>
    cases granted with
    | true => rfl
    | false => exact (stale rest rest _).symm

/-- What is done with a piece that was read. -/
def Phase.withPiece (throttle : Option Throttle) (piece : Bytes) : Phase :=
  match throttle with
  | none => .writing piece
  | some throttle =>
    match Throttle.tokens piece.length with
    | .ok weight => .asking throttle weight piece
    | .error fault => .ended (.error fault)

namespace Copying

/-- One step of a copy: one read, one request for tokens or one write. -/
def step (throttle : Option Throttle) (size : Nat) (moment : Copying) : Copying :=
  match moment.phase with
  | .reading =>
    match moment.source.read size with
    | (.error fault, source) => { moment with source, phase := .ended (.error fault) }
    | (.ok [], source) => { moment with source, phase := .ended (.ok moment.copied) }
    | (.ok (first :: rest), source) => { moment with source, phase := .withPiece throttle (first :: rest) }
  | .asking throttle weight piece =>
    let asked := throttle.request weight moment.session
    if asked.1 then { moment with session := asked.2, phase := .writing piece }
    else { moment with session := asked.2 }
  | .writing piece =>
    match moment.session.sink.write piece with
    | .error fault => { moment with phase := .ended (.error fault) }
    | .ok sink =>
      { moment with
        session := { moment.session with sink }
        copied := moment.copied + piece.length
        phase := .reading }
  | .ended _ => moment

/-- The moment after a number of steps. -/
def after (throttle : Option Throttle) (size : Nat) (moment : Copying) : Nat → Copying
  | 0 => moment
  | steps + 1 => (moment.after throttle size steps).step throttle size

/-- What the read or the write raises that comes next. -/
def raises (size : Nat) (moment : Copying) : Option Fault :=
  match moment.phase with
  | .reading =>
    match (moment.source.read size).1 with
    | .error fault => some fault
    | .ok _ => none
  | .writing piece =>
    match moment.session.sink.write piece with
    | .error fault => some fault
    | .ok _ => none
  | .asking .. | .ended _ => none

/-! ### The end of a copy -/

/-- Writes a piece and copies the rest. -/
def goOn (throttle : Option Throttle) (size : Nat) (piece : Bytes) (source : Source) (session : Session)
    (copied : Nat) : Except Fault Nat × Source × Session :=
  match session.sink.write piece with
  | .error fault => (.error fault, source, session)
  | .ok sink => copyFrom throttle size source { session with sink } (copied + piece.length)

/-- What the copy does from a moment on. -/
def finish (throttle : Option Throttle) (size : Nat) (moment : Copying) :
    Except Fault Nat × Source × Session :=
  match moment.phase with
  | .reading => copyFrom throttle size moment.source moment.session moment.copied
  | .asking asked weight piece =>
    goOn throttle size piece moment.source (asked.acquire weight moment.session) moment.copied
  | .writing piece => goOn throttle size piece moment.source moment.session moment.copied
  | .ended outcome => (outcome, moment.source, moment.session)

variable {throttle : Option Throttle} {size : Nat} {moment : Copying}

/-- A piece that was read goes through the throttle and is written. -/
theorem finish_withPiece (source : Source) (session : Session) (copied : Nat) (first : UInt8) (rest : Bytes) :
    finish throttle size ⟨source, session, copied, .withPiece throttle (first :: rest)⟩ =
      match letPass throttle (first :: rest).length session with
      | (.error fault, session) => (.error fault, source, session)
      | (.ok (), session) => goOn throttle size (first :: rest) source session copied := by
  cases throttle with
  | none => rfl
  | some throttle =>
    have filled : ¬ (((first :: rest).length : Nat) : Int) ≤ 0 := by
      simp only [List.length_cons]
      omega
    rw [letPass, Throttle.consume, if_neg filled, Int.toNat_natCast]
    unfold Phase.withPiece
    cases Throttle.tokens (first :: rest).length <;> rfl

/-- **From every moment on a copy goes on as before.** -/
theorem finish_step (moment : Copying) :
    (moment.step throttle size).finish throttle size = moment.finish throttle size := by
  obtain ⟨source, session, copied, phase⟩ := moment
  cases phase with
  | ended outcome => rfl
  | writing piece =>
    simp only [step, finish, goOn]
    cases session.sink.write piece <;> rfl
  | asking asked weight piece =>
    have goes := asked.acquire_request weight session
    simp only [step]
    cases granted : (asked.request weight session).1 with
    | true =>
      simp only [granted, if_true] at goes ⊢
      exact congrArg (goOn throttle size piece source · copied) goes.symm
    | false =>
      simp only [granted, Bool.false_eq_true, if_false] at goes ⊢
      exact congrArg (goOn throttle size piece source · copied) goes.symm
  | reading =>
    rw [show finish throttle size ⟨source, session, copied, .reading⟩ =
      copyFrom throttle size source session copied from rfl, copyFrom]
    split
    · rename_i fault next failed
      rw [step, failed]
      rfl
    · rename_i next last
      rw [step, last]
      rfl
    · rename_i first rest next given
      rw [step, given]
      exact finish_withPiece next session copied first rest

theorem finish_after (steps : Nat) :
    (moment.after throttle size steps).finish throttle size = moment.finish throttle size := by
  induction steps with
  | zero => rfl
  | succ steps ih => rw [after, finish_step, ih]

/-- More steps than a copy can still make. -/
def stepsLeft (moment : Copying) : Nat :=
  let rounds := 3 * moment.source.content.length + moment.session.answers.length
  match moment.phase with
  | .reading => rounds + 1
  | .asking .. => rounds + 3
  | .writing _ => rounds + 2
  | .ended _ => 0

/-- A request for tokens uses up an answer of the limiter, unless it is granted. -/
theorem length_answers_request (throttle : Throttle) (weight : Nat) (session : Session) :
    let asked := throttle.request weight session
    asked.2.answers.length + (if asked.1 then 0 else 1) ≤ session.answers.length := by
  unfold Throttle.request
  split
  · rename_i answers coming
    rw [coming]
    exact Nat.le_refl _
  · simp

/-- **Every step comes closer to the end.** -/
theorem stepsLeft_step (going : ∀ outcome, moment.phase ≠ .ended outcome) :
    (moment.step throttle size).stepsLeft < moment.stepsLeft := by
  obtain ⟨source, session, copied, phase⟩ := moment
  cases phase with
  | ended outcome => exact absurd rfl (going outcome)
  | writing piece =>
    simp only [step]
    cases session.sink.write piece with
    | error fault => exact Nat.succ_pos _
    | ok sink => exact Nat.lt_succ_self _
  | asking asked weight piece =>
    have used := length_answers_request asked weight session
    simp only [step]
    cases granted : (asked.request weight session).1 <;>
      simp only [granted, Bool.false_eq_true, if_false, if_true] at used ⊢ <;>
      simp only [stepsLeft] <;> omega
  | reading =>
    simp only [step]
    split
    · exact Nat.succ_pos _
    · exact Nat.succ_pos _
    · rename_i first rest next given
      have split := congrArg List.length (Source.read_content given)
      simp only [List.length_append, List.length_cons] at split
      unfold Phase.withPiece
      split
      · simp only [stepsLeft]
        omega
      · split <;> simp only [stepsLeft] <;> omega

/-- **A copy comes to its end**, and that is the end that `finish` tells. -/
theorem ends (throttle : Option Throttle) (size : Nat) (moment : Copying) :
    ∃ last, (moment.after throttle size last).phase = .ended (moment.finish throttle size).1 ∧
      (moment.after throttle size last).source = (moment.finish throttle size).2.1 ∧
      (moment.after throttle size last).session = (moment.finish throttle size).2.2 := by
  have closer (steps : Nat) : (∃ last outcome, (moment.after throttle size last).phase = .ended outcome) ∨
      (moment.after throttle size steps).stepsLeft + steps ≤ moment.stepsLeft := by
    induction steps with
    | zero => exact .inr (Nat.le_refl _)
    | succ steps ih =>
      rcases ih with ended | close
      · exact .inl ended
      · by_cases ended : ∃ outcome, (moment.after throttle size steps).phase = .ended outcome
        · exact .inl ⟨steps, ended⟩
        · have fewer : (moment.after throttle size (steps + 1)).stepsLeft <
              (moment.after throttle size steps).stepsLeft := stepsLeft_step (not_exists.mp ended)
          exact .inr (by omega)
  have ended : ∃ last outcome, (moment.after throttle size last).phase = .ended outcome := by
    rcases closer (moment.stepsLeft + 1) with ended | close
    · exact ended
    · omega
  obtain ⟨last, outcome, ended⟩ := ended
  refine ⟨last, ?_⟩
  rw [← finish_after last, finish, ended]
  exact ⟨rfl, rfl, rfl⟩

end Copying

/-! ### What the destination holds -/

/-- A source that gives something when it is asked for something and does not fail. -/
def Source.Giving (source : Source) : Prop :=
  ∀ made size ready, source.supply made size = .ok ready → 0 < size → 0 < ready

theorem Source.Giving.read {source next : Source} (giving : source.Giving) {size : Nat}
    {outcome : Except Fault Bytes} (read : source.read size = (outcome, next)) : next.Giving := by
  unfold Source.read at read
  split at read <;> cases read <;> exact giving

/-- A source that gives nothing has nothing more. -/
theorem Source.Giving.exhausted {source next : Source} (giving : source.Giving) {size : Nat}
    (positive : 0 < size) (last : source.read size = (.ok [], next)) : source.content = [] := by
  cases gives : source.supply source.made size with
  | error fault => simp [Source.read, gives] at last
  | ok ready =>
    have some := giving _ _ _ gives positive
    simp only [Source.read, gives, Prod.mk.injEq, Except.ok.injEq, List.take_eq_nil_iff] at last
    exact last.1.resolve_left (by omega)

/-- What is written, what is in hand and what is left make up the content. -/
def Phase.Splits (content front left : Bytes) : Phase → Prop
  | .reading => front ++ left = content
  | .asking _ _ piece | .writing piece => front ++ (piece ++ left) = content
  | .ended (.ok total) => front = content ∧ total = front.length
  | .ended (.error _) => front <+: content

theorem Phase.Splits.isPrefix {content front left : Bytes} {phase : Phase}
    (splits : phase.Splits content front left) : front <+: content := by
  cases phase with
  | reading => exact ⟨_, splits⟩
  | asking | writing => exact ⟨_, splits⟩
  | ended outcome =>
    cases outcome with
    | ok total => exact splits.1 ▸ List.prefix_rfl
    | error fault => exact splits

namespace Copying

variable {throttle : Option Throttle} {size : Nat} {moment : Copying}

/-- What holds at every moment: behind the data that was there, the destination has the front of the content,
and it is known how long that is. -/
structure Sound (content data : Bytes) (moment : Copying) : Prop where
  giving : moment.source.Giving
  held : ∃ front, moment.session.sink.data = data ++ front ∧ front.length = moment.copied ∧
    moment.phase.Splits content front moment.source.content

theorem request_sink (throttle : Throttle) (weight : Nat) (session : Session) :
    (throttle.request weight session).2.sink = session.sink := by
  unfold Throttle.request
  split <;> rfl

/-- A sound copy that returned has copied all. -/
theorem Sound.whole {content data : Bytes} {total : Nat} (sound : moment.Sound content data)
    (returned : moment.phase = .ended (.ok total)) :
    total = content.length ∧ moment.session.sink.data = data ++ content := by
  obtain ⟨-, front, holds, -, splits⟩ := sound
  rw [returned] at splits
  obtain ⟨rfl, rfl⟩ := splits
  exact ⟨rfl, holds⟩

/-- **One step keeps the destination sound.** -/
theorem Sound.step {content data : Bytes} (positive : 0 < size) (sound : moment.Sound content data) :
    (moment.step throttle size).Sound content data := by
  obtain ⟨source, session, copied, phase⟩ := moment
  obtain ⟨giving, front, holds, length, splits⟩ := sound
  cases phase with
  | ended outcome => exact ⟨giving, front, holds, length, splits⟩
  | writing piece =>
    simp only [Copying.step]
    cases written : session.sink.write piece with
    | error fault => exact ⟨giving, front, holds, length, ⟨_, splits⟩⟩
    | ok sink =>
      refine ⟨giving, front ++ piece, ?_, ?_, ?_⟩
      · rw [Sink.data_append written, holds, List.append_assoc]
      · rw [List.length_append, length]
      · exact (List.append_assoc _ _ _).trans splits
  | asking asked weight piece =>
    have kept : (asked.request weight session).2.sink.data = data ++ front := by
      rw [request_sink, holds]
    simp only [Copying.step]
    split
    · exact ⟨giving, front, kept, length, splits⟩
    · exact ⟨giving, front, kept, length, splits⟩
  | reading =>
    have splits : front ++ source.content = content := splits
    simp only [Copying.step]
    split
    · rename_i fault next failed
      exact ⟨giving.read failed, front, holds, length, ⟨_, splits⟩⟩
    · rename_i next last
      rw [giving.exhausted positive last, List.append_nil] at splits
      exact ⟨giving.read last, front, holds, length, splits, length.symm⟩
    · rename_i first rest next given
      rw [← Source.read_content given] at splits
      refine ⟨giving.read given, front, holds, length, ?_⟩
      unfold Phase.withPiece
      split
      · exact splits
      · split
        · exact splits
        · exact ⟨_, splits⟩

end Copying

/-! ### What is paid for -/

/-- Every request for tokens that one session has before the other asks for one token at least, and for no more
than one second grants. -/
def Session.AsksWithin (rate : Int) (session session' : Session) : Prop :=
  ∃ asked, session'.requests = asked ++ session.requests ∧
    ∀ request ∈ asked, 1 ≤ request.weight ∧ (request.weight : Int) ≤ rate

namespace Session.AsksWithin

variable {rate : Int}

theorem of_same {session session' : Session} (same : session'.requests = session.requests) :
    session.AsksWithin rate session' := ⟨[], same, nofun⟩

theorem trans {first second third : Session} (before : first.AsksWithin rate second)
    (later : second.AsksWithin rate third) : first.AsksWithin rate third := by
  obtain ⟨asked, front, weights⟩ := before
  obtain ⟨asked', front', weights'⟩ := later
  refine ⟨asked' ++ asked, by rw [front', front, List.append_assoc], ?_⟩
  intro request among
  rcases List.mem_append.mp among with newer | older
  · exact weights' request newer
  · exact weights request older

/-- Without a limit nothing is asked for. -/
theorem unlimited {session session' : Session} (asks : session.AsksWithin rate session') (free : rate ≤ 0) :
    session'.requests = session.requests := by
  obtain ⟨asked, front, weights⟩ := asks
  cases asked with
  | nil => exact front
  | cons request rest =>
    have := weights request (.head _)
    omega

end Session.AsksWithin

/-- The bytes in hand that are paid for. -/
def Phase.due : Phase → Nat
  | .writing piece => piece.length
  | _ => 0

/-- The tokens that are asked for pay for the piece in hand, and one second grants them. -/
def Phase.Affordable (rate : Int) : Phase → Prop
  | .asking _ weight piece => piece.length ≤ tokenSize * weight ∧ 1 ≤ weight ∧ (weight : Int) ≤ rate
  | _ => True

/-- One second grants the tokens of a piece. -/
theorem tokensFor_bounds {rate : Int} (limited : 0 < rate) {count : Nat} (some : 0 < count)
    (short : count ≤ (Throttle.piece rate).toNat) :
    1 ≤ tokensFor count ∧ (tokensFor count : Int) ≤ rate := by
  have fits := Throttle.piece_le rate
  have positive := Throttle.piece_pos limited
  have kilo : tokenSize = 1024 := rfl
  simp only [tokensFor, kilo] at fits ⊢
  omega

namespace Copying

variable {moment : Copying}

/-- What holds at every moment of a copy that may use a number of tokens in a second: no more than these are
asked for at once, and what is written, or let pass to be written, is paid for. -/
structure Paid (rate : Int) (begun : Session) (moment : Copying) : Prop where
  asks : begun.AsksWithin rate moment.session
  affordable : moment.phase.Affordable rate
  paid : 0 < rate → tokenSize * begun.granted + (moment.copied + moment.phase.due) ≤
    tokenSize * moment.session.granted

/-- The size of the pieces of a copy. -/
def pieceSize (rate : Int) : Nat :=
  if rate ≤ 0 then copyLimit else (Throttle.piece rate).toNat

/-- A request for tokens is one more request, whether it is granted or not. -/
theorem requests_request (throttle : Throttle) (weight : Nat) (session : Session) :
    let asked := throttle.request weight session
    asked.2.requests = ⟨throttle, weight, asked.1⟩ :: session.requests := by
  unfold Throttle.request
  split <;> rfl

theorem granted_request (throttle : Throttle) (weight : Nat) (session : Session) :
    let asked := throttle.request weight session
    asked.2.granted = session.granted + if asked.1 then weight else 0 := by
  intro asked
  have requests : asked.2.requests = _ := requests_request throttle weight session
  rw [Session.granted, requests]
  show (if asked.1 = true then _ else _) = _
  split
  · exact Nat.add_comm _ _
  · rfl

/-- **One step keeps a copy paid for.** -/
theorem Paid.step {rate : Int} {channel : String} {begun : Session} (paid : moment.Paid rate begun) :
    (moment.step (Throttle.of rate channel) (pieceSize rate)).Paid rate begun := by
  obtain ⟨source, session, copied, phase⟩ := moment
  obtain ⟨asks, affordable, paid⟩ := paid
  cases phase with
  | ended outcome => exact ⟨asks, affordable, paid⟩
  | writing piece =>
    simp only [Copying.step]
    cases written : session.sink.write piece with
    | error fault =>
      refine ⟨asks, trivial, fun limited => Nat.le_trans ?_ (paid limited)⟩
      exact Nat.add_le_add_left (Nat.add_le_add_left (Nat.zero_le _) _) _
    | ok sink => exact ⟨asks, trivial, paid⟩
  | asking asked weight piece =>
    obtain ⟨enough, one, few⟩ := affordable
    have one_more := requests_request asked weight session
    have granted := granted_request asked weight session
    simp only [Copying.step]
    generalize asked.request weight session = requested at one_more granted ⊢
    obtain ⟨grants, session'⟩ := requested
    have asks : begun.AsksWithin rate session' := by
      refine asks.trans ⟨[⟨asked, weight, grants⟩], one_more, ?_⟩
      intro request among
      rw [List.mem_singleton.mp among]
      exact ⟨one, few⟩
    cases grants with
    | true =>
      refine ⟨asks, trivial, fun limited => ?_⟩
      have paid := paid limited
      simp only [Phase.due, if_true] at paid granted ⊢
      rw [granted, Nat.mul_add]
      omega
    | false =>
      refine ⟨asks, ⟨enough, one, few⟩, fun limited => ?_⟩
      have paid := paid limited
      have same : session'.granted = session.granted := granted
      show _ ≤ tokenSize * session'.granted
      rw [same]
      exact paid
  | reading =>
    simp only [Copying.step]
    split
    · exact ⟨asks, trivial, paid⟩
    · exact ⟨asks, trivial, paid⟩
    · rename_i first rest next given
      have short := length_read_le given
      unfold Throttle.of pieceSize at *
      by_cases free : rate ≤ 0
      · rw [if_pos free]
        exact ⟨asks, trivial, fun limited => absurd free (Int.not_le.mpr limited)⟩
      · simp only [if_neg free] at short ⊢
        have limited := Int.not_le.mp free
        have few : (first :: rest).length ≤ copyLimit := Nat.le_trans short (piece_le_copyLimit rate)
        have bounds := tokensFor_bounds limited (Nat.succ_pos _) short
        rw [Phase.withPiece, Throttle.tokens_eq (lt_exactLimit few)]
        exact ⟨asks, ⟨tokensFor_le_iff.mp (Nat.le_refl _), bounds⟩, paid⟩

/-! ### What is raised -/

variable {throttle : Option Throttle} {size : Nat} {fault : Fault}

theorem step_ended {outcome : Except Fault Nat} (stopped : moment.phase = .ended outcome) :
    moment.step throttle size = moment := by
  rw [Copying.step, stopped]

/-- What a read or a write raises ends a copy. -/
theorem phase_step_of_raises (raised : moment.raises size = some fault) :
    (moment.step throttle size).phase = .ended (.error fault) := by
  obtain ⟨source, session, copied, phase⟩ := moment
  cases phase with
  | asking | ended => cases raised
  | writing piece =>
    simp only [raises, Copying.step] at raised ⊢
    generalize session.sink.write piece = written at raised ⊢
    cases written with
    | ok sink => cases raised
    | error fault' =>
      cases raised
      rfl
  | reading =>
    simp only [raises, Copying.step] at raised ⊢
    generalize source.read size = given at raised ⊢
    obtain ⟨outcome, next⟩ := given
    cases outcome with
    | ok piece => cases raised
    | error fault' =>
      cases raised
      rfl

/-- Nothing but a read or a write ends a copy with a fault. -/
theorem raises_of_phase_step (few : size ≤ copyLimit) (going : ∀ outcome, moment.phase ≠ .ended outcome)
    (failed : (moment.step throttle size).phase = .ended (.error fault)) :
    moment.raises size = some fault := by
  obtain ⟨source, session, copied, phase⟩ := moment
  cases phase with
  | ended outcome => exact absurd rfl (going outcome)
  | asking asked weight piece =>
    simp only [Copying.step] at failed
    split at failed <;> cases failed
  | writing piece =>
    simp only [raises, Copying.step] at failed ⊢
    generalize session.sink.write piece = written at failed ⊢
    cases written with
    | ok sink => cases failed
    | error fault' =>
      cases failed
      rfl
  | reading =>
    simp only [raises, Copying.step] at failed ⊢
    generalize given : source.read size = read at failed ⊢
    obtain ⟨outcome, next⟩ := read
    cases outcome with
    | error fault' =>
      cases failed
      rfl
    | ok piece =>
      cases piece with
      | nil => cases failed
      | cons first rest =>
        have counted := Throttle.tokens_eq (lt_exactLimit (Nat.le_trans (length_read_le given) few))
        cases throttle with
        | none => cases failed
        | some throttle =>
          simp only [Phase.withPiece, counted] at failed
          cases failed

/-- **A copy ends with the fault that a read or a write raises.** -/
theorem exists_raises_iff (few : size ≤ copyLimit) (going : ∀ outcome, moment.phase ≠ .ended outcome) :
    (∃ steps, (moment.after throttle size steps).raises size = some fault) ↔
      (moment.finish throttle size).1 = .error fault := by
  constructor
  · rintro ⟨steps, raised⟩
    rw [← finish_after (steps + 1), finish, after, phase_step_of_raises raised]
  · intro failed
    obtain ⟨last, ended, -⟩ := ends throttle size moment
    rw [failed] at ended
    have before (steps : Nat) : (moment.after throttle size steps).phase = .ended (.error fault) →
        ∃ steps, (moment.after throttle size steps).raises size = some fault := by
      induction steps with
      | zero => exact fun ended => absurd ended (going _)
      | succ steps ih =>
        intro ended
        by_cases stopped : ∃ outcome, (moment.after throttle size steps).phase = .ended outcome
        · obtain ⟨outcome, stopped⟩ := stopped
          rw [after, step_ended stopped] at ended
          exact ih ended
        · exact ⟨steps, raises_of_phase_step few (not_exists.mp stopped) ended⟩
    exact before last ended

/-- A copy returns if no read and no write raises anything. -/
theorem returns_iff (few : size ≤ copyLimit) (going : ∀ outcome, moment.phase ≠ .ended outcome) :
    (∃ total, (moment.finish throttle size).1 = .ok total) ↔
      ∀ steps, (moment.after throttle size steps).raises size = none := by
  have fails (fault : Fault) : (∃ steps, (moment.after throttle size steps).raises size = some fault) ↔
      (moment.finish throttle size).1 = .error fault := exists_raises_iff few going
  constructor
  · rintro ⟨total, returns⟩ steps
    rw [Option.eq_none_iff_forall_ne_some]
    intro fault raised
    have failed := (fails fault).mp ⟨steps, raised⟩
    rw [returns] at failed
    cases failed
  · intro quiet
    cases ended : (moment.finish throttle size).1 with
    | ok total => exact ⟨total, rfl⟩
    | error fault =>
      obtain ⟨steps, raised⟩ := (fails fault).mpr ended
      rw [quiet steps] at raised
      cases raised

theorem Sound.after {content data : Bytes} (positive : 0 < size) (sound : moment.Sound content data)
    (steps : Nat) : (moment.after throttle size steps).Sound content data := by
  induction steps with
  | zero => exact sound
  | succ steps ih => exact ih.step positive

theorem Paid.after {rate : Int} {channel : String} {begun : Session} (paid : moment.Paid rate begun)
    (steps : Nat) : (moment.after (Throttle.of rate channel) (pieceSize rate) steps).Paid rate begun := by
  induction steps with
  | zero => exact paid
  | succ steps ih => exact ih.step

/-! ### All moments of a copy -/

/-- The moments of a copy, by number. -/
def moments (rate : Int) (channel : String) (source : Source) (session : Session) : Nat → Copying :=
  after (Throttle.of rate channel) (pieceSize rate)
    { source, session := (session.throttleFor rate channel).2 }

theorem pieceSize_pos (rate : Int) : 0 < pieceSize rate := by
  unfold pieceSize
  split
  · decide
  · rename_i free
    have := Throttle.piece_pos (Int.not_le.mp free)
    omega

theorem pieceSize_le (rate : Int) : pieceSize rate ≤ copyLimit := by
  unfold pieceSize
  split
  · exact Nat.le_refl _
  · exact piece_le_copyLimit rate

/-- A copy goes on from its first moment. -/
theorem copy_eq_finish (rate : Int) (channel : String) (source : Source) (session : Session) :
    copy rate channel source session =
      finish (Throttle.of rate channel) (pieceSize rate)
        { source, session := (session.throttleFor rate channel).2 } := by
  have handed := Session.throttleFor_fst rate channel session
  unfold copy
  generalize session.throttleFor rate channel = made at handed ⊢
  obtain ⟨throttle, ready⟩ := made
  unfold Throttle.of pieceSize
  by_cases free : rate ≤ 0
  · simp only [if_pos free] at handed ⊢
    rw [handed]
    rfl
  · simp only [if_neg free] at handed ⊢
    rw [handed]
    rfl

end Copying

/-- What a copy does at every moment, and how it ends. Each of its moments goes on as the copy does, and they
come to its end. At each of them the destination holds, behind what was there, a front of the content, and with a limit that is paid for; no more
tokens are asked for at once than one second grants, and without a limit none at all. It returns if no read
and no write raises anything, and then all is copied; otherwise it ends with what was raised. -/
structure Momentwise (rate : Int) (channel : String) (source : Source) (session : Session) : Prop where
  goesOn : ∀ number, (Copying.moments rate channel source session number).finish (Throttle.of rate channel)
    (Copying.pieceSize rate) = copy rate channel source session
  ends : ∃ last, let moment := Copying.moments rate channel source session last
    moment.phase = .ended (copy rate channel source session).1 ∧
      (moment.source, moment.session) = (copy rate channel source session).2
  held : ∀ number, let moment := Copying.moments rate channel source session number
    ∃ front, front <+: source.content ∧ moment.session.sink.data = session.sink.data ++ front ∧
      (1 ≤ rate → tokenSize * session.granted + front.length ≤ tokenSize * moment.session.granted)
  asks : ∀ number, session.AsksWithin rate (Copying.moments rate channel source session number).session
  unlimited : rate ≤ 0 → ∀ number,
    (Copying.moments rate channel source session number).session.requests = session.requests
  returns_iff : (∃ total, (copy rate channel source session).1 = .ok total) ↔
    ∀ number, (Copying.moments rate channel source session number).raises (Copying.pieceSize rate) = none
  whole : ∀ total, (copy rate channel source session).1 = .ok total → total = source.content.length ∧
    (copy rate channel source session).2.2.sink.data = session.sink.data ++ source.content
  fails_iff : ∀ fault, (copy rate channel source session).1 = .error fault ↔
    ∃ number, (Copying.moments rate channel source session number).raises (Copying.pieceSize rate) = some fault

/-- **A copy is exact, holds a prefix at every moment, and stays within its budget**, whatever the source gives
at a time, whatever the limiter answers, and wherever a read or a write fails. -/
theorem copy_momentwise (rate : Int) (channel : String) {source : Source} (giving : source.Giving)
    (session : Session) : Momentwise rate channel source session := by
  let start : Copying := { source, session := (session.throttleFor rate channel).2 }
  have finish : copy rate channel source session =
    start.finish (Throttle.of rate channel) (Copying.pieceSize rate) :=
      Copying.copy_eq_finish rate channel source session
  have going : ∀ outcome, start.phase ≠ .ended outcome := nofun
  have few := Copying.pieceSize_le rate
  have sound : start.Sound source.content session.sink.data :=
    ⟨giving, [], by rw [(throttleFor_alike rate channel session).sink, List.append_nil], rfl, rfl⟩
  have sound (number : Nat) :
      (Copying.moments rate channel source session number).Sound source.content session.sink.data :=
    sound.after (Copying.pieceSize_pos rate) number
  have paid : start.Paid rate session := by
    refine ⟨.of_same (Session.requests_throttleFor rate channel session), trivial, fun _ => ?_⟩
    rw [throttleFor_granted]
    exact Nat.le_refl _
  have paid (number : Nat) : (Copying.moments rate channel source session number).Paid rate session :=
    paid.after number
  obtain ⟨last, outcome, left, ready⟩ : ∃ last, let moment := Copying.moments rate channel source session last
      moment.phase = .ended (copy rate channel source session).1 ∧
        moment.source = (copy rate channel source session).2.1 ∧
        moment.session = (copy rate channel source session).2.2 := by
    rw [finish]
    exact Copying.ends _ _ start
  constructor
  case goesOn =>
    intro number
    rw [finish]
    exact Copying.finish_after number
  case ends => exact ⟨last, outcome, Prod.ext left ready⟩
  case held =>
    intro number
    obtain ⟨front, holds, length, splits⟩ := (sound number).held
    refine ⟨front, splits.isPrefix, holds, fun limited => ?_⟩
    have paid := (paid number).paid limited
    rw [← length] at paid
    exact Nat.le_trans (Nat.add_le_add_left (Nat.le_add_right _ _) _) paid
  case asks => exact fun number => (paid number).asks
  case unlimited => exact fun free number => (paid number).asks.unlimited free
  case whole =>
    intro total returns
    rw [← ready]
    exact (sound last).whole (outcome.trans (congrArg Phase.ended returns))
  case fails_iff =>
    intro fault
    rw [finish]
    exact (Copying.exists_raises_iff few going).symm
  case returns_iff =>
    rw [finish]
    exact Copying.returns_iff few going

/-- Four bytes come two at a time, and the limiter turns the first request for a token down. There is room for
three bytes, so two are written, and the copy ends as its second write does. -/
theorem copy_momentwise_of_full_disk :
    let source := Source.short [1, 2, 3, 4] 2
    let session : Session := { answers := [false], sink := .limited 3 }
    let moment := Copying.moments 1 "worker" source session 6
    source.Giving ∧ moment.session.sink.data = [1, 2] ∧
      moment.session.requests.map (fun request => (request.weight, request.granted)) =
        [(1, true), (1, true), (1, false)] ∧
      (copy 1 "worker" source session).1 = .error (.external .system "disk full") := by
  intro source session moment
  have giving : source.Giving := by
    rintro made size ready ⟨⟩ _
    decide
  refine ⟨giving, by decide +kernel, by decide +kernel, ?_⟩
  exact ((copy_momentwise 1 "worker" giving session).fails_iff _).mpr ⟨6, by decide +kernel⟩

end FossilVault
