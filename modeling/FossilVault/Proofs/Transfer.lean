import FossilVault.Transfer.Body
import FossilVault.Transfer.Copy
/-
**Transfers that nothing stops.** A throttle only makes a transfer wait: pieces that fit in a buffer
are always let pass in the end, so what arrives is what was sent, whatever the rate, the limiter's
answers and the lengths of the reads.

* `letPass_ok` — a piece that fits in a buffer passes;
* `Body.read_make` — the body of an upload gives its whole content to a reader that asks for all;
* `copy_steady` — a source that keeps giving is copied whole to a destination that refuses nothing.
-/

namespace FossilVault

/-- Two sessions with the same clock and the same destination. -/
structure Session.Alike (session session' : Session) : Prop where
  clock : session'.clock = session.clock
  sink : session'.sink = session.sink

namespace Session.Alike

theorem refl (session : Session) : session.Alike session := ⟨rfl, rfl⟩

theorem trans {first second third : Session} (before : first.Alike second)
    (later : second.Alike third) : first.Alike third :=
  ⟨later.clock.trans before.clock, later.sink.trans before.sink⟩

theorem note (level : Log.Level) (part : Log.Part) (message : String) (session : Session) :
    session.Alike (session.note level part message) := ⟨rfl, rfl⟩

end Session.Alike

/-! ### Passing a throttle -/

/-- A session whose throttles were made or asked: they and the log are all that may be another. -/
def Session.Throttled (session session' : Session) : Prop :=
  ∃ throttles answers requests log, session' = { session with throttles, answers, requests, log }

theorem Session.Throttled.alike {session session' : Session} (throttled : session.Throttled session') :
    session.Alike session' := by
  obtain ⟨_, _, _, _, rfl⟩ := throttled
  exact ⟨rfl, rfl⟩

theorem acquireBy_throttled (throttle : Throttle) (weight : Nat) (answers : List Bool)
    (session : Session) : session.Throttled (throttle.acquireBy weight answers session) := by
  induction answers generalizing session with
  | nil => exact ⟨_, _, _, _, rfl⟩
  | cons granted rest ih =>
    cases granted with
    | true => exact ⟨_, _, _, _, rfl⟩
    | false =>
      rw [Throttle.acquireBy]
      obtain ⟨_, _, _, _, same⟩ := ih ({ session with
        requests := ⟨throttle, weight, false⟩ :: session.requests }.note .debug .throttle
          ("Throttle at " ++ toString throttle.rate ++ " KB/s still waiting for " ++ toString weight ++
            " KB"))
      rw [same]
      exact ⟨_, _, _, _, rfl⟩

/-- A piece that fits in a buffer has so few tokens that they can be counted. -/
theorem lt_exactLimit {count : Nat} (few : count ≤ copyLimit) : count < Number.exactLimit :=
  Nat.lt_of_le_of_lt few (by decide)

theorem letPass_ok (throttle : Option Throttle) {count : Nat} (few : count ≤ copyLimit)
    (session : Session) :
    ∃ session', letPass throttle count session = (.ok (), session') ∧ session.Alike session' := by
  cases throttle with
  | none => exact ⟨session, rfl, .refl session⟩
  | some throttle =>
    have counted := Throttle.tokens_eq (lt_exactLimit few)
    by_cases nothing : (count : Int) ≤ 0
    · exact ⟨session, by rw [letPass, Throttle.consume, if_pos nothing], .refl session⟩
    · refine ⟨throttle.acquire ((count + (tokenSize - 1)) / tokenSize) session, ?_,
        (acquireBy_throttled throttle _ session.answers session).alike⟩
      rw [letPass, Throttle.consume, if_neg nothing, Int.toNat_natCast, counted]

/-- A throttle changes nothing else, whatever it is asked for. -/
theorem letPass_throttled (throttle : Option Throttle) (count : Nat) (session : Session) :
    session.Throttled (letPass throttle count session).2 := by
  cases throttle with
  | none => exact ⟨_, _, _, _, rfl⟩
  | some throttle =>
    rw [letPass, Throttle.consume]
    split
    · exact ⟨_, _, _, _, rfl⟩
    · split
      · exact acquireBy_throttled throttle _ session.answers session
      · exact ⟨_, _, _, _, rfl⟩

theorem letPass_alike (throttle : Option Throttle) (count : Nat) (session : Session) :
    session.Alike (letPass throttle count session).2 :=
  (letPass_throttled throttle count session).alike

theorem throttleFor_throttled (rate : Int) (channel : String) (session : Session) :
    session.Throttled (session.throttleFor rate channel).2 := by
  rw [Session.throttleFor_snd]
  rcases session.enrol_snd rate channel with same | made
  · rw [same]
    exact ⟨_, _, _, _, rfl⟩
  · rw [made]
    exact ⟨_, _, _, _, rfl⟩

theorem throttleFor_alike (rate : Int) (channel : String) (session : Session) :
    session.Alike (session.throttleFor rate channel).2 :=
  (throttleFor_throttled rate channel session).alike

theorem piece_le_copyLimit (rate : Int) : (Throttle.piece rate).toNat ≤ copyLimit := by
  unfold Throttle.piece
  omega

/-! ### Reading a body to its end -/

namespace Body

theorem length_taken_le {size : Nat} {left piece : Bytes} (taken : left.take size = piece) :
    piece.length ≤ size := by
  rw [← taken, List.length_take]
  exact Nat.min_le_left _ _

/-- **Draining lets all that is left pass.** -/
theorem drain_ok (throttle : Option Throttle) {size : Nat} (positive : 0 < size) (few : size ≤ copyLimit)
    (before : List Bytes) (left : Bytes) (session : Session) :
    ∃ session', drain throttle size before left session =
      (.ok (before.reverse.flatten ++ left), [], session') ∧ session.Alike session' := by
  fun_induction drain throttle size before left session with
  | case1 before left session none =>
    have void : left = [] := by
      rcases List.take_eq_nil_iff.mp none with zero | void
      · omega
      · exact void
    subst void
    exact ⟨session, by simp, .refl session⟩
  | case2 before left session first rest taken piece fault session' refused =>
    have short : piece.length ≤ copyLimit := Nat.le_trans (length_taken_le taken) few
    obtain ⟨_, passed, _⟩ := letPass_ok throttle short session
    rw [passed] at refused
    cases refused
  | case3 before left session first rest taken piece session' passed ih =>
    have short : piece.length ≤ copyLimit := Nat.le_trans (length_taken_le taken) few
    obtain ⟨last, drained, alike⟩ := ih
    obtain ⟨_, passed', alike'⟩ := letPass_ok throttle short session
    rw [passed] at passed'
    cases passed'
    refine ⟨last, ?_, alike'.trans alike⟩
    rw [drained, List.reverse_cons, List.flatten_append, List.flatten_singleton, List.append_assoc,
      show piece = left.take size from taken.symm, List.take_append_drop]

/-- **The body of an upload gives its whole content** to a reader that asks for all. -/
theorem read_make {rate : Int} (limited : 0 < rate) (content : Bytes) (channel : String)
    (made read : Session) :
    ∃ body session', (make content rate channel made).1.read none read = (.ok content, body, session') ∧
      read.Alike session' := by
  have throttled : (made.throttleFor rate channel).1 = some ⟨rate, channel⟩ := by
    rw [Session.throttleFor_fst, if_neg (Int.not_le.mpr limited)]
  have positive : 0 < (Throttle.piece rate).toNat := by
    have := Throttle.piece_pos limited
    omega
  obtain ⟨session', drained, alike⟩ :=
    drain_ok (some ⟨rate, channel⟩) positive (piece_le_copyLimit rate) [] content read
  have whole : (make content rate channel made).1.read none read =
      (.ok content, { buffer := { content, position := content.length }, throttle := some ⟨rate, channel⟩ },
        session') := by
    simp only [Body.read, make, throttled, readAt, Option.filter_none, readAll, Buffer.rest,
      List.drop_zero, drained]
    simp
  exact ⟨_, session', whole, alike⟩

end Body

/-! ### What a copy changes -/

/-- A session after a copy: its throttles, the log and the destination are all that may be another. -/
def Session.Copied (session session' : Session) : Prop :=
  ∃ sink, Session.Throttled { session with sink } session'

theorem Session.Throttled.copied {first second third : Session} (throttled : first.Throttled second)
    (copied : second.Copied third) : first.Copied third := by
  obtain ⟨_, _, _, _, rfl⟩ := throttled
  obtain ⟨sink, _, _, _, _, rfl⟩ := copied
  exact ⟨sink, _, _, _, _, rfl⟩

theorem Session.Copied.refl (session : Session) : session.Copied session :=
  ⟨_, _, _, _, _, rfl⟩

theorem Session.Copied.clock {session session' : Session} (copied : session.Copied session') :
    session'.clock = session.clock := by
  obtain ⟨_, _, _, _, _, rfl⟩ := copied
  rfl

/-- A copy changes nothing else, however it ends. -/
theorem copyFrom_copied (throttle : Option Throttle) (size : Nat) (source : Source) (session : Session)
    (copied : Nat) : session.Copied (copyFrom throttle size source session copied).2.2 := by
  fun_induction copyFrom throttle size source session copied with
  | case1 | case2 => exact .refl _
  | case3 source session copied first rest next given piece fault session' refused =>
    have passed := letPass_throttled throttle piece.length session
    rw [refused] at passed
    exact passed.copied (.refl _)
  | case4 source session copied first rest next given piece session' admitted fault refused =>
    have passed := letPass_throttled throttle piece.length session
    rw [admitted] at passed
    exact passed.copied (.refl _)
  | case5 source session copied first rest next given piece session' admitted sink accepted ih =>
    have passed := letPass_throttled throttle piece.length session
    rw [admitted] at passed
    obtain ⟨written, rest⟩ := ih
    exact passed.copied ⟨written, rest⟩

theorem copy_copied (rate : Int) (channel : String) (source : Source) (session : Session) :
    session.Copied (copy rate channel source session).2.2 := by
  have made := throttleFor_throttled rate channel session
  unfold copy
  split <;> rename_i throttled <;> rw [throttled] at made <;>
    exact made.copied (copyFrom_copied _ _ source _ 0)

/-! ### Copying a source that keeps giving -/

/-- A source that never fails and gives something whenever it is asked for something. -/
def Source.Steady (source : Source) : Prop :=
  ∀ made size, ∃ ready, source.supply made size = .ok ready ∧ (0 < size → 0 < ready)

/-- A destination that refuses nothing. -/
def Sink.Open (sink : Sink) : Prop :=
  ∀ held piece, sink.refuse held piece = none

theorem write_open {sink : Sink} (isOpen : sink.Open) (piece : Bytes) :
    ∃ next, sink.write piece = .ok next ∧ next.Open ∧ next.data = sink.data ++ piece := by
  have accepted : sink.write piece =
      .ok { sink with pieces := piece :: sink.pieces, held := sink.held + piece.length } := by
    rw [Sink.write, isOpen]
  exact ⟨_, accepted, isOpen, Sink.data_append accepted⟩

theorem length_read_le {size : Nat} {source next : Source} {piece : Bytes}
    (given : source.read size = (.ok piece, next)) : piece.length ≤ size := by
  unfold Source.read at given
  split at given
  · cases given
  · cases given
    rw [List.length_take]
    omega

theorem steady_read {size : Nat} {source next : Source} {piece : Bytes} (steady : source.Steady)
    (given : source.read size = (.ok piece, next)) : next.Steady := by
  unfold Source.read at given
  split at given
  · cases given
  · cases given
    exact steady

/-- **A steady source is copied whole** to a destination that refuses nothing. -/
theorem copyFrom_steady (throttle : Option Throttle) {size : Nat} (positive : 0 < size)
    (few : size ≤ copyLimit) (source : Source) (session : Session) (copied : Nat)
    (steady : source.Steady) (isOpen : session.sink.Open) :
    ∃ count rest session', copyFrom throttle size source session copied = (.ok count, rest, session') ∧
      session'.clock = session.clock ∧ session'.sink.data = session.sink.data ++ source.content := by
  fun_induction copyFrom throttle size source session copied with
  | case1 source session copied fault next failed =>
    obtain ⟨ready, gives, _⟩ := steady source.made size
    simp [Source.read, gives] at failed
  | case2 source session copied next given =>
    refine ⟨copied, next, session, rfl, rfl, ?_⟩
    obtain ⟨ready, gives, some⟩ := steady source.made size
    have void : source.content = [] := by
      simp only [Source.read, gives, Prod.mk.injEq, Except.ok.injEq, List.take_eq_nil_iff] at given
      rcases given.1 with zero | void
      · have := some positive
        omega
      · exact void
    rw [void, List.append_nil]
  | case3 source session copied first rest next given piece fault session' refused =>
    obtain ⟨_, passed, _⟩ := letPass_ok throttle (Nat.le_trans (length_read_le given) few) session
    rw [passed] at refused
    cases refused
  | case4 source session copied first rest next given piece session' passed fault refused =>
    obtain ⟨_, passed', alike⟩ := letPass_ok throttle (Nat.le_trans (length_read_le given) few) session
    rw [passed] at passed'
    cases passed'
    obtain ⟨_, accepted, _⟩ := write_open (alike.sink ▸ isOpen) piece
    rw [accepted] at refused
    cases refused
  | case5 source session copied first rest next given piece session' passed sink accepted ih =>
    obtain ⟨_, passed', alike⟩ := letPass_ok throttle (Nat.le_trans (length_read_le given) few) session
    rw [passed] at passed'
    cases passed'
    obtain ⟨_, accepted', stillOpen, data⟩ := write_open (alike.sink ▸ isOpen) piece
    rw [accepted] at accepted'
    cases accepted'
    obtain ⟨count, last, ended, copies, clock, whole⟩ := ih (steady_read steady given) stillOpen
    refine ⟨count, last, ended, copies, clock.trans alike.clock, ?_⟩
    rw [whole, data, alike.sink, List.append_assoc, Source.read_content given]

theorem copy_steady (rate : Int) (channel : String) (source : Source) (session : Session)
    (steady : source.Steady) (isOpen : session.sink.Open) :
    ∃ count rest session', copy rate channel source session = (.ok count, rest, session') ∧
      session'.clock = session.clock ∧ session'.sink.data = session.sink.data ++ source.content := by
  have alike := throttleFor_alike rate channel session
  have rated := Session.throttleFor_fst rate channel session
  unfold copy
  split
  · rename_i throttle session' throttled
    rw [throttled] at alike rated
    have limited : throttle = ⟨rate, channel⟩ ∧ 0 < rate := by
      by_cases free : rate ≤ 0
      · simp [free] at rated
      · simp only [if_neg free, Option.some.injEq] at rated
        exact ⟨rated, Int.not_le.mp free⟩
    obtain ⟨rfl, limited⟩ := limited
    have positive : 0 < (Throttle.piece rate).toNat := by
      have := Throttle.piece_pos limited
      omega
    obtain ⟨count, rest, last, copied, clock, data⟩ := copyFrom_steady (some ⟨rate, channel⟩) positive
      (piece_le_copyLimit rate) source session' 0 steady (alike.sink ▸ isOpen)
    exact ⟨count, rest, last, copied, clock.trans alike.clock, by rw [data, alike.sink]⟩
  · rename_i session' throttled
    rw [throttled] at alike
    obtain ⟨count, rest, last, copied, clock, data⟩ := copyFrom_steady none (by decide)
      (Nat.le_refl copyLimit) source session' 0 steady (alike.sink ▸ isOpen)
    exact ⟨count, rest, last, copied, clock.trans alike.clock, by rw [data, alike.sink]⟩

end FossilVault
