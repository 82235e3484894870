import FossilVault.Proofs.Transfer
/-
**Tokens.** A transfer through a throttle is charged one token for each KB of it, the last one begun
counted as well. The pieces it is cut into make no difference, since all but the last are whole KBs, and
neither do the rate and the requests that the limiter turns down.

* `Session.granted` — the tokens that were granted;
* `letPass_granted` — the tokens of one piece;
* `Body.drain_granted`, `copyFrom_granted` — the tokens of all pieces of a body and of a stream.
-/

namespace FossilVault

/-- The weight of all requests for tokens that were granted. -/
def Session.granted (session : Session) : Nat :=
  session.requests.foldr (fun request total =>
    if request.granted then request.weight + total else total) 0

/-- One token for each KB that was begun. -/
def tokensFor (count : Nat) : Nat :=
  (count + (tokenSize - 1)) / tokenSize

/-- What a throttle charges for a number of bytes; without one they are free. -/
def charge (throttle : Option Throttle) (count : Nat) : Nat :=
  if throttle.isSome then tokensFor count else 0

/-- They are the fewest that pay for all bytes. -/
theorem tokensFor_le_iff {count tokens : Nat} : tokensFor count ≤ tokens ↔ count ≤ tokenSize * tokens := by
  have kilo : tokenSize = 1024 := rfl
  simp only [tokensFor, kilo]
  omega

/-- **Whole KBs are charged alike together and apart.** -/
theorem tokensFor_split {size : Nat} (whole : tokenSize ∣ size) (count : Nat) :
    tokensFor (min size count) + tokensFor (count - size) = tokensFor count := by
  obtain ⟨tokens, rfl⟩ := whole
  have kilo : tokenSize = 1024 := rfl
  simp only [tokensFor, kilo]
  omega

theorem charge_zero (throttle : Option Throttle) : charge throttle 0 = 0 := by
  unfold charge
  split <;> rfl

theorem charge_split (throttle : Option Throttle) {size : Nat} (whole : tokenSize ∣ size) (count : Nat) :
    charge throttle (min size count) + charge throttle (count - size) = charge throttle count := by
  unfold charge
  split
  · exact tokensFor_split whole count
  · rfl

/-- A piece of a throttle is made of whole KBs. -/
theorem tokenSize_dvd_piece (rate : Int) : tokenSize ∣ (Throttle.piece rate).toNat := by
  have kilo : tokenSize = 1024 := rfl
  have buffer : copyLimit = 65536 := rfl
  unfold Throttle.piece
  simp only [kilo, buffer]
  omega

/-! ### One piece -/

theorem readClock_granted (session : Session) : session.readClock.2.granted = session.granted := by
  unfold Session.readClock
  split <;> rfl

/-- Requests that are turned down are not charged. -/
theorem acquireBy_granted (throttle : Throttle) (weight : Nat) (answers : List Bool) (session : Session) :
    (throttle.acquireBy weight answers session).granted = session.granted + weight := by
  have charged (session : Session) (answers : List Bool) :
      Session.granted { session with answers, requests := ⟨throttle, weight, true⟩ :: session.requests } =
        session.granted + weight := by
    simp [Session.granted, Nat.add_comm]
  induction answers generalizing session with
  | nil => exact charged session []
  | cons granted rest ih =>
    cases granted with
    | true => exact charged session rest
    | false => exact ih _

/-- **A piece that fits in a buffer is charged its KBs.** -/
theorem letPass_granted (throttle : Option Throttle) {count : Nat} (few : count ≤ copyLimit)
    (session : Session) :
    (letPass throttle count session).2.granted = session.granted + charge throttle count := by
  cases throttle with
  | none => rfl
  | some throttle =>
    rw [letPass, Throttle.consume]
    by_cases nothing : (count : Int) ≤ 0
    · have none : count = 0 := by omega
      rw [if_pos nothing, none, charge_zero, Nat.add_zero]
    · rw [if_neg nothing, Int.toNat_natCast, Throttle.tokens_eq (lt_exactLimit few)]
      exact acquireBy_granted throttle _ session.answers session

theorem throttleFor_granted (rate : Int) (channel : String) (session : Session) :
    (session.throttleFor rate channel).2.granted = session.granted := by
  rw [Session.throttleFor_snd]
  rcases session.enrol_snd rate channel with same | made
  · rw [same]
  · rw [made]
    rfl

/-! ### All pieces -/

/-- **A body that is drained is charged its KBs**, however it is cut. -/
theorem Body.drain_granted (throttle : Option Throttle) {size : Nat} (positive : 0 < size)
    (whole : tokenSize ∣ size) (few : size ≤ copyLimit) (before : List Bytes) (left : Bytes)
    (session : Session) :
    (drain throttle size before left session).2.2.granted =
      session.granted + charge throttle left.length := by
  fun_induction drain throttle size before left session with
  | case1 before left session none =>
    have void : left = [] := (List.take_eq_nil_iff.mp none).resolve_left (by omega)
    rw [void, List.length_nil, charge_zero, Nat.add_zero]
  | case2 before left session first rest taken piece fault session' refused =>
    obtain ⟨_, passed, _⟩ := letPass_ok throttle (Nat.le_trans (length_taken_le taken) few) session
    rw [passed] at refused
    cases refused
  | case3 before left session first rest taken piece session' passed ih =>
    have charged := letPass_granted throttle (Nat.le_trans (length_taken_le taken) few) session
    have cut : piece.length = min size left.length := by
      rw [← List.length_take]
      exact congrArg List.length taken.symm
    rw [passed] at charged
    rw [ih, charged, cut, List.length_drop, Nat.add_assoc, charge_split throttle whole]

/-- **The body of an upload is charged its KBs** when it is read to its end. -/
theorem Body.read_make_granted {rate : Int} (limited : 0 < rate) (content : Bytes) (channel : String)
    (made read : Session) :
    ((make content rate channel made).1.read none read).2.2.granted =
      read.granted + tokensFor content.length := by
  have throttled : (made.throttleFor rate channel).1 = some ⟨rate, channel⟩ := by
    rw [Session.throttleFor_fst, if_neg (Int.not_le.mpr limited)]
  have positive : 0 < (Throttle.piece rate).toNat := by
    have := Throttle.piece_pos limited
    omega
  have drained := drain_granted (some ⟨rate, channel⟩) positive (tokenSize_dvd_piece rate)
    (piece_le_copyLimit rate) [] content read
  simp only [Body.read, make, throttled, readAt, Option.filter_none, readAll, Buffer.rest,
    List.drop_zero]
  exact drained

/-- A stream that gives as many bytes as it is asked for, as long as it has them. -/
def Source.Direct (source : Source) : Prop :=
  ∀ made size, source.supply made size = .ok size

theorem Source.Direct.steady {source : Source} (direct : source.Direct) : source.Steady := by
  intro made size
  exact ⟨size, direct made size, id⟩

theorem Source.Direct.read {source next : Source} (direct : source.Direct) {size : Nat} {piece : Bytes}
    (given : source.read size = (.ok piece, next)) :
    piece = source.content.take size ∧ next.content = source.content.drop size ∧ next.Direct := by
  simp only [Source.read, direct source.made size, Nat.min_self] at given
  cases given
  exact ⟨rfl, rfl, direct⟩

/-- **A stream that is copied whole is charged its KBs**, however it is cut. -/
theorem copyFrom_granted (throttle : Option Throttle) {size : Nat} (positive : 0 < size)
    (whole : tokenSize ∣ size) (few : size ≤ copyLimit) {source : Source} (direct : source.Direct)
    (session : Session) (copied : Nat) {total : Nat}
    (ended : (copyFrom throttle size source session copied).1 = .ok total) :
    (copyFrom throttle size source session copied).2.2.granted =
      session.granted + charge throttle source.content.length := by
  fun_induction copyFrom throttle size source session copied with
  | case1 | case3 | case4 => cases ended
  | case2 source session copied next given =>
    obtain ⟨none, _⟩ := direct.read given
    have void : source.content = [] := (List.take_eq_nil_iff.mp none.symm).resolve_left (by omega)
    rw [void, List.length_nil, charge_zero, Nat.add_zero]
  | case5 source session copied first rest next given piece session' passed sink accepted ih =>
    obtain ⟨taken, left, direct'⟩ := direct.read given
    have charged := letPass_granted throttle (Nat.le_trans (length_read_le given) few) session
    have cut : piece.length = min size source.content.length := by
      rw [← List.length_take]
      exact congrArg List.length taken
    rw [passed] at charged
    have rest_charged := ih direct' ended
    have charged : session'.granted = session.granted + charge throttle piece.length := charged
    rw [rest_charged, left, List.length_drop]
    show session'.granted + _ = _
    rw [charged, cut, Nat.add_assoc, charge_split throttle whole]

/-- **A copy is charged the KBs of its stream if it has a limit**, and nothing without one. -/
theorem copy_granted (rate : Int) (channel : String) {source : Source} (direct : source.Direct)
    (session : Session) {total : Nat} (ended : (copy rate channel source session).1 = .ok total) :
    (copy rate channel source session).2.2.granted =
      session.granted + if 0 < rate then tokensFor source.content.length else 0 := by
  have same := throttleFor_granted rate channel session
  have rated := Session.throttleFor_fst rate channel session
  by_cases limited : 0 < rate
  · rw [if_neg (Int.not_le.mpr limited)] at rated
    have throttled : session.throttleFor rate channel =
        (some ⟨rate, channel⟩, (session.throttleFor rate channel).2) := Prod.ext rated rfl
    have positive : 0 < (Throttle.piece rate).toNat := by
      have := Throttle.piece_pos limited
      omega
    rw [copy, throttled] at ended ⊢
    rw [if_pos limited, ← same]
    exact copyFrom_granted (some ⟨rate, channel⟩) positive (tokenSize_dvd_piece rate) (piece_le_copyLimit rate) direct
      _ 0 ended
  · rw [if_pos (Int.not_lt.mp limited)] at rated
    have throttled : session.throttleFor rate channel =
        (none, (session.throttleFor rate channel).2) := Prod.ext rated rfl
    rw [copy, throttled] at ended ⊢
    rw [if_neg limited, ← same]
    exact copyFrom_granted none (by decide) (by decide) (Nat.le_refl copyLimit) direct _ 0 ended

end FossilVault
