import FossilVault.Session
/-
**Throttles.** A budget is given in KB per second; zero or less means no limit. A global budget is shared
evenly by the workers, and each worker has a throttle of its own for each direction. A throttle lets
bytes pass by asking its limiter for one token per KB, begun ones included, until they are granted.

* `share_pos`, `share_nonpos` — a limit never turns into none, and none never into a limit;
* `piece_pos`, `piece_le` — the largest piece of a throttle is positive and never needs more tokens than
  one second grants;
* `tokens_eq` — the tokens for a count below `2 ^ 53` are its KB, rounded up;
* `letPass_sink` — passing a throttle writes nothing to the destination;
* `Session.enrol_cases` — all that asking for a throttle comes to;
* `Session.throttleFor_fst`, `Session.mem_throttles_of_throttleFor` — the throttle handed out has the
  channel and the rate that were asked for, and it is there from then on.
-/

namespace FossilVault

/-- The bytes that one token pays for. -/
def tokenSize : Nat := 1024

/-- The largest single read of a copy, throttled or not. -/
def copyLimit : Nat := 64 * tokenSize

/-- The part of a global budget that each of the workers may use. -/
def share (budget workers : Int) : Int :=
  if budget ≤ 0 then 0 else max 1 (budget / max 1 workers)

theorem share_nonpos {budget : Int} (unlimited : budget ≤ 0) (workers : Int) : share budget workers = 0 :=
  if_pos unlimited

theorem share_pos {budget : Int} (limited : 0 < budget) (workers : Int) : 1 ≤ share budget workers := by
  unfold share
  split <;> omega

namespace Throttle

/-- The largest piece whose tokens one second at this rate can grant. -/
def piece (rate : Int) : Int :=
  min copyLimit (rate * tokenSize)

theorem piece_pos {rate : Int} (limited : 0 < rate) : 0 < piece rate := by
  have scaled : 0 < rate * (tokenSize : Int) := Int.mul_pos limited (by decide)
  have buffered : (0 : Int) < copyLimit := by decide
  unfold piece
  omega

theorem piece_le (rate : Int) : piece rate ≤ rate * tokenSize := Int.min_le_right _ _

/-- The least count of bytes whose KB are beyond every double. -/
def countLimit : Nat := tokenSize * Number.doubleLimit

theorem lt_countLimit {count : Nat} (small : count < Number.exactLimit) : count < countLimit :=
  Nat.lt_of_lt_of_le small (Nat.le_trans Number.exactLimit_le_doubleLimit
    (Nat.le_mul_of_pos_left _ (by decide)))

/-- The tokens for a count of bytes: the count in KB as a double, rounded up. -/
def tokens (count : Nat) : Except Fault Nat :=
  let held := Number.significant count 1
  if held < countLimit then .ok ((held + (tokenSize - 1)) / tokenSize) else .error .countTooLarge

theorem tokens_eq {count : Nat} (small : count < Number.exactLimit) :
    tokens count = .ok ((count + (tokenSize - 1)) / tokenSize) := by
  simp only [tokens, Number.significant_of_lt small, if_pos (lt_countLimit small)]

/-- Asks for tokens as the limiter's answers come, until one grants them. -/
def acquireBy (throttle : Throttle) (weight : Nat) : List Bool → Session → Session
  | [], session =>
    { session with answers := [], requests := ⟨throttle, weight, true⟩ :: session.requests }
  | true :: rest, session =>
    { session with answers := rest, requests := ⟨throttle, weight, true⟩ :: session.requests }
  | false :: rest, session =>
    acquireBy throttle weight rest <|
      { session with requests := ⟨throttle, weight, false⟩ :: session.requests }.note .debug .throttle
        ("Throttle at " ++ toString throttle.rate ++ " KB/s still waiting for " ++ toString weight ++
          " KB")

/-- Asks for tokens until they are granted. -/
def acquire (throttle : Throttle) (weight : Nat) (session : Session) : Session :=
  acquireBy throttle weight session.answers session

/-- Lets a number of bytes pass; nothing to pass needs no token. -/
def consume (throttle : Throttle) (count : Int) (session : Session) : Except Fault Unit × Session :=
  if count ≤ 0 then (.ok (), session)
  else
    match tokens count.toNat with
    | .ok weight => (.ok (), acquire throttle weight session)
    | .error fault => (.error fault, session)

/-- Makes a throttle that belongs to no channel; a limiter that grants nothing is refused. -/
def make (rate : Int) : Except Fault Throttle :=
  if rate = 0 then .error .idleRate else .ok { rate }

end Throttle

/-- Lets a number of bytes pass the throttle, if there is one. -/
def letPass (throttle : Option Throttle) (count : Nat) (session : Session) :
    Except Fault Unit × Session :=
  match throttle with
  | some throttle => throttle.consume count session
  | none => (.ok (), session)

/-! ### Passing a throttle writes nothing -/

theorem acquireBy_sink (throttle : Throttle) (weight : Nat) (answers : List Bool) (session : Session) :
    (throttle.acquireBy weight answers session).sink = session.sink := by
  induction answers generalizing session with
  | nil => rfl
  | cons granted rest ih =>
    cases granted with
    | true => rfl
    | false => exact ih _

theorem consume_sink (throttle : Throttle) (count : Int) (session : Session) :
    (throttle.consume count session).2.sink = session.sink := by
  unfold Throttle.consume
  split
  · rfl
  · split
    · exact acquireBy_sink _ _ _ _
    · rfl

theorem letPass_sink (throttle : Option Throttle) (count : Nat) (session : Session) :
    (letPass throttle count session).2.sink = session.sink := by
  cases throttle with
  | none => rfl
  | some throttle => exact consume_sink throttle count session

/-! ### The registered throttles -/

namespace Session

/-- Makes the throttle of a channel at a rate. Its number is the count of those made before. -/
def makeThrottle (rate : Int) (channel : String) (session : Session) : Session :=
  { session with throttles := session.throttles ++ [(channel, rate)] }.note .debug .throttle
    ("Created throttle for '" ++ channel ++ "' at " ++ toString rate ++ " KB/s")

/-- The number of the throttle of a channel at a rate, made when it is first asked for; none without a
limit. -/
def enrol (rate : Int) (channel : String) (session : Session) : Option Nat × Session :=
  if rate ≤ 0 then (none, session)
  else
    match session.throttles.idxOf? (channel, rate) with
    | some number => (some number, session)
    | none => (some session.throttles.length, session.makeThrottle rate channel)

/-- The throttle with a number. -/
def throttleAt (number : Nat) (session : Session) : Option Throttle :=
  session.throttles[number]?.map fun key => ⟨key.2, key.1⟩

/-- The throttle of a channel at a rate, made when it is first asked for; none without a limit. -/
def throttleFor (rate : Int) (channel : String) (session : Session) : Option Throttle × Session :=
  let made := session.enrol rate channel
  (made.1.bind fun number => made.2.throttleAt number, made.2)

@[simp] theorem makeThrottle_throttles (rate : Int) (channel : String) (session : Session) :
    (session.makeThrottle rate channel).throttles = session.throttles ++ [(channel, rate)] := rfl

/-- Asking for a throttle comes to none without a limit, to the number of one that is there, or to a new
number when there is none. -/
theorem enrol_cases (rate : Int) (channel : String) (session : Session) :
    (rate ≤ 0 ∧ session.enrol rate channel = (none, session)) ∨
      (0 < rate ∧ ∃ number, session.throttles[number]? = some (channel, rate) ∧
        session.enrol rate channel = (some number, session)) ∨
      (0 < rate ∧ (channel, rate) ∉ session.throttles ∧
        session.enrol rate channel = (some session.throttles.length, session.makeThrottle rate channel)) := by
  unfold enrol
  by_cases free : rate ≤ 0
  · exact .inl ⟨free, if_pos free⟩
  · rw [if_neg free]
    have limited := Int.not_le.mp free
    cases found : session.throttles.idxOf? (channel, rate) with
    | none => exact .inr (.inr ⟨limited, List.idxOf?_eq_none_iff.mp found, rfl⟩)
    | some number =>
      obtain ⟨inside, same, _⟩ := List.idxOf?_eq_some_iff.mp found
      exact .inr (.inl ⟨limited, number, List.getElem?_eq_some_iff.mpr ⟨inside, same⟩, rfl⟩)

/-- A limit is given a number, and its throttle is found there. -/
theorem exists_enrolled {rate : Int} (limited : 0 < rate) (channel : String) (session : Session) :
    ∃ number, (session.enrol rate channel).1 = some number ∧
      (session.enrol rate channel).2.throttles[number]? = some (channel, rate) := by
  rcases session.enrol_cases rate channel with ⟨free, _⟩ | ⟨_, number, there, made⟩ | ⟨_, _, made⟩
  · omega
  · rw [made]
    exact ⟨number, rfl, there⟩
  · rw [made]
    exact ⟨_, rfl, List.getElem?_concat_length⟩

theorem throttleFor_fst (rate : Int) (channel : String) (session : Session) :
    (session.throttleFor rate channel).1 = if rate ≤ 0 then none else some ⟨rate, channel⟩ := by
  by_cases free : rate ≤ 0
  · rw [throttleFor, enrol, if_pos free, if_pos free]
    rfl
  · obtain ⟨number, given, there⟩ := exists_enrolled (Int.not_le.mp free) channel session
    rw [throttleFor, given, if_neg free, Option.bind_some, throttleAt, there]
    rfl

theorem throttleFor_snd (rate : Int) (channel : String) (session : Session) :
    (session.throttleFor rate channel).2 = (session.enrol rate channel).2 := rfl

/-- Asking for a throttle makes it or changes nothing. -/
theorem enrol_snd (rate : Int) (channel : String) (session : Session) :
    (session.enrol rate channel).2 = session ∨
      (session.enrol rate channel).2 = session.makeThrottle rate channel := by
  rcases session.enrol_cases rate channel with ⟨_, made⟩ | ⟨_, _, _, made⟩ | ⟨_, _, made⟩
  · exact .inl (congrArg Prod.snd made)
  · exact .inl (congrArg Prod.snd made)
  · exact .inr (congrArg Prod.snd made)

/-- The throttle that was handed out is there. -/
theorem mem_throttles_of_throttleFor {rate : Int} (limited : 0 < rate) (channel : String)
    (session : Session) : (channel, rate) ∈ (session.throttleFor rate channel).2.throttles := by
  obtain ⟨_, _, there⟩ := exists_enrolled limited channel session
  exact List.mem_of_getElem? there

/-- The registered throttles by channel and rate. -/
def channels (session : Session) : List (String × Int) :=
  session.throttles.mergeSort fun a b => a.1 < b.1 || (a.1 == b.1 && a.2 ≤ b.2)

end Session

end FossilVault
