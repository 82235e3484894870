import FossilVault.Proofs.Throttles
import FossilVault.Proofs.Tokens
/-
**Whom a transfer is charged to.** What copies or reads behind a throttle has that throttle made and lets
bytes pass it, and does nothing else to throttles. So no other throttle is made, no other one is asked for
tokens, and the tokens that it grants pay for all bytes.

* `Session.Draws` — what is done on behalf of a rate and a channel;
* `Session.Draws.throttles`, `Session.Draws.requests`, `Session.Draws.paid` — what is made by it, what is
  asked, and what that pays for;
* `copy_draws`, `Body.Used.draws` — copies and readers draw on their throttle alone.
-/

namespace FossilVault

/-- The throttle that is handed out for a rate and a channel. -/
def Throttle.of (rate : Int) (channel : String) : Option Throttle :=
  if rate ≤ 0 then none else some ⟨rate, channel⟩

/-- A throttle makes no throttle, and all that it asks for, again and again, are tokens of its own. -/
theorem acquireBy_asks (throttle : Throttle) (weight : Nat) (answers : List Bool) (session : Session) :
    let asked := throttle.acquireBy weight answers session
    asked.throttles = session.throttles ∧ ∃ requests, asked.requests = requests ++ session.requests ∧
      ∀ request ∈ requests, request.throttle = throttle ∧ request.weight = weight := by
  induction answers generalizing session with
  | nil => exact ⟨rfl, [⟨throttle, weight, true⟩], rfl, by simp⟩
  | cons granted rest ih =>
    cases granted with
    | true => exact ⟨rfl, [⟨throttle, weight, true⟩], rfl, by simp⟩
    | false =>
      obtain ⟨same, requests, front, own⟩ := ih ({ session with
        requests := ⟨throttle, weight, false⟩ :: session.requests }.note .debug .throttle
          ("Throttle at " ++ toString throttle.rate ++ " KB/s still waiting for " ++ toString weight ++
            " KB"))
      refine ⟨same, requests ++ [⟨throttle, weight, false⟩], ?_, ?_⟩
      · rw [List.append_assoc]
        exact front
      · intro request among
        rcases List.mem_append.mp among with newer | first
        · exact own request newer
        · rw [List.mem_singleton.mp first]
          exact ⟨rfl, rfl⟩

theorem letPass_asks (throttle : Option Throttle) (count : Nat) (session : Session) :
    let passed := (letPass throttle count session).2
    passed.throttles = session.throttles ∧ ∃ requests, passed.requests = requests ++ session.requests ∧
      ∀ request ∈ requests, throttle = some request.throttle := by
  have idle : session.throttles = session.throttles ∧ ∃ requests,
      session.requests = requests ++ session.requests ∧
        ∀ request ∈ requests, throttle = some request.throttle := ⟨rfl, [], rfl, nofun⟩
  cases throttle with
  | none => exact idle
  | some throttle =>
    rw [letPass, Throttle.consume]
    split
    · exact idle
    · split
      · obtain ⟨same, requests, front, own⟩ := acquireBy_asks throttle _ session.answers session
        exact ⟨same, requests, front, fun request among => congrArg some (own request among).1.symm⟩
      · exact idle

namespace Session

/-- What is done to a session on behalf of a rate and a channel: their throttle is made, bytes pass it, and
all else leaves the throttles and the requests for tokens alone. The number is that of the bytes. -/
inductive Draws (rate : Int) (channel : String) : Nat → Session → Session → Prop
  | same {session session' : Session} (throttles : session'.throttles = session.throttles)
      (requests : session'.requests = session.requests) : Draws rate channel 0 session session'
  | enrol (session : Session) : Draws rate channel 0 session (session.throttleFor rate channel).2
  | pass {session : Session} {count : Nat} (few : count ≤ copyLimit)
      (enrolled : 0 < rate → (channel, rate) ∈ session.throttles) :
      Draws rate channel count session (letPass (Throttle.of rate channel) count session).2
  | trans {first second third : Session} {count count' : Nat} (before : Draws rate channel count first second)
      (later : Draws rate channel count' second third) : Draws rate channel (count + count') first third

namespace Draws

variable {rate : Int} {channel : String} {count : Nat} {session session' : Session}

/-- No other throttle is made, and this one is made once. -/
theorem throttles (draws : Draws rate channel count session session') :
    session'.throttles = session.throttles ∨
      0 < rate ∧ (channel, rate) ∉ session.throttles ∧
        session'.throttles = session.throttles ++ [(channel, rate)] := by
  induction draws with
  | same throttles _ => exact .inl throttles
  | enrol session =>
    rw [throttleFor_snd, throttles_enrol]
    split
    · exact .inl rfl
    · rename_i fresh
      exact .inr ⟨Int.not_le.mp fun free => fresh (.inl free), fun known => fresh (.inr known), rfl⟩
  | pass => exact .inl (letPass_asks _ _ _).1
  | trans _ _ before later =>
    rcases later with same | ⟨limited, fresh, grown⟩
    · rw [same]
      exact before
    · rcases before with same | ⟨_, _, grown'⟩
      · rw [grown, same]
        exact .inr ⟨limited, same ▸ fresh, rfl⟩
      · exact absurd (by simp [grown']) fresh

theorem mem_throttles (draws : Draws rate channel count session session') {key : String × Int}
    (known : key ∈ session.throttles) : key ∈ session'.throttles := by
  rcases draws.throttles with same | ⟨_, _, grown⟩
  · rwa [same]
  · rw [grown]
    exact List.mem_append_left _ known

/-- **No other throttle is asked for tokens**, and it was made before it is asked. -/
theorem requests (draws : Draws rate channel count session session') :
    ∃ requests, session'.requests = requests ++ session.requests ∧
      ∀ request ∈ requests, request.throttle = ⟨rate, channel⟩ ∧ 0 < rate ∧
        (channel, rate) ∈ session'.throttles := by
  induction draws with
  | same _ requests => exact ⟨[], requests, nofun⟩
  | enrol session => exact ⟨[], requests_throttleFor rate channel session, nofun⟩
  | @pass session count few enrolled =>
    obtain ⟨same, requests, front, own⟩ := letPass_asks (Throttle.of rate channel) count session
    refine ⟨requests, front, ?_⟩
    intro request among
    have this := own request among
    unfold Throttle.of at this
    split at this
    · cases this
    · rename_i limited
      have limited := Int.not_le.mp limited
      exact ⟨(Option.some.inj this).symm, limited, same ▸ enrolled limited⟩
  | trans _ later ih ih' =>
    obtain ⟨requests, front, own⟩ := ih
    obtain ⟨requests', front', own'⟩ := ih'
    refine ⟨requests' ++ requests, by rw [front', front, List.append_assoc], ?_⟩
    intro request among
    rcases List.mem_append.mp among with newer | older
    · exact own' request newer
    · obtain ⟨this, limited, known⟩ := own request older
      exact ⟨this, limited, later.mem_throttles known⟩

/-- **All bytes are paid for** by tokens of the throttle. -/
theorem paid (draws : Draws rate channel count session session') (limited : 0 < rate) :
    tokenSize * session.granted + count ≤ tokenSize * session'.granted := by
  induction draws with
  | same _ requests =>
    rw [granted, granted, requests]
    exact Nat.le_refl _
  | enrol session =>
    rw [throttleFor_granted]
    exact Nat.le_refl _
  | @pass session count few enrolled =>
    have charged : charge (Throttle.of rate channel) count = tokensFor count := by
      rw [Throttle.of, if_neg (Int.not_le.mpr limited)]
      rfl
    have enough := tokensFor_le_iff.mp (Nat.le_refl (tokensFor count))
    rw [letPass_granted _ few, charged, Nat.mul_add]
    omega
  | trans _ _ before later => omega

theorem unlimited (draws : Draws rate channel count session session') (free : rate ≤ 0) :
    session'.throttles = session.throttles ∧ session'.requests = session.requests := by
  constructor
  · rcases draws.throttles with same | ⟨limited, _, _⟩
    · exact same
    · omega
  · obtain ⟨requests, front, own⟩ := draws.requests
    cases requests with
    | nil => exact front
    | cons request rest =>
      have := (own request (.head _)).2.1
      omega

end Draws

end Session

/-! ### Copies and bodies -/

/-- **A copy draws on its throttle alone**, however it ends, and pays for every byte that arrives. -/
theorem copyFrom_draws {rate : Int} {channel : String} {size : Nat} (few : size ≤ copyLimit)
    (source : Source) (session : Session) (enrolled : 0 < rate → (channel, rate) ∈ session.throttles)
    (copied : Nat) :
    let ended := copyFrom (Throttle.of rate channel) size source session copied
    ∃ count, session.Draws rate channel count ended.2.2 ∧
      ended.2.2.sink.data.length ≤ session.sink.data.length + count := by
  fun_induction copyFrom (Throttle.of rate channel) size source session copied with
  | case1 | case2 => exact ⟨0, .same rfl rfl, Nat.le_refl _⟩
  | case3 source session copied first rest next given piece fault session' refused =>
    have short : piece.length ≤ copyLimit := Nat.le_trans (length_read_le given) few
    have passed : session.Draws rate channel piece.length _ := .pass short enrolled
    have kept := letPass_sink (Throttle.of rate channel) piece.length session
    rw [refused] at passed kept
    exact ⟨_, passed, Nat.le_trans (Nat.le_of_eq (congrArg (·.data.length) kept)) (Nat.le_add_right _ _)⟩
  | case4 source session copied first rest next given piece session' admitted fault refused =>
    have short : piece.length ≤ copyLimit := Nat.le_trans (length_read_le given) few
    have passed : session.Draws rate channel piece.length _ := .pass short enrolled
    have kept := letPass_sink (Throttle.of rate channel) piece.length session
    rw [admitted] at passed kept
    exact ⟨_, passed, Nat.le_trans (Nat.le_of_eq (congrArg (·.data.length) kept)) (Nat.le_add_right _ _)⟩
  | case5 source session copied first rest next given piece session' admitted sink accepted ih =>
    have short : piece.length ≤ copyLimit := Nat.le_trans (length_read_le given) few
    have passed : session.Draws rate channel piece.length _ := .pass short enrolled
    have kept := letPass_sink (Throttle.of rate channel) piece.length session
    rw [admitted] at passed kept
    obtain ⟨count, draws, gained⟩ := ih fun limited => passed.mem_throttles (enrolled limited)
    have stored : Session.Draws rate channel 0 session' { session' with sink } := .same rfl rfl
    refine ⟨_, passed.trans (stored.trans draws), ?_⟩
    have written : sink.data.length = session.sink.data.length + piece.length := by
      rw [Sink.data_append accepted, List.length_append, show session'.sink = session.sink from kept]
    simp only [written] at gained
    omega

theorem copy_draws (rate : Int) (channel : String) (source : Source) (session : Session) :
    let ended := copy rate channel source session
    ∃ count, session.Draws rate channel count ended.2.2 ∧
      ended.2.2.sink.data.length ≤ session.sink.data.length + count := by
  have made : session.Draws rate channel 0 _ := .enrol session
  have enrolled (limited : 0 < rate) : (channel, rate) ∈ (session.throttleFor rate channel).2.throttles :=
    Session.mem_throttles_of_throttleFor limited channel session
  have kept := (throttleFor_alike rate channel session).sink
  have handed : (session.throttleFor rate channel).1 = Throttle.of rate channel :=
    Session.throttleFor_fst rate channel session
  unfold copy
  generalize session.throttleFor rate channel = out at made enrolled kept handed ⊢
  obtain ⟨throttle, ready⟩ := out
  simp only at made enrolled kept handed
  have copies {size : Nat} (few : size ≤ copyLimit) : ∃ count,
      session.Draws rate channel count (copyFrom throttle size source ready 0).2.2 ∧
        (copyFrom throttle size source ready 0).2.2.sink.data.length ≤
          session.sink.data.length + count := by
    obtain ⟨count, draws, gained⟩ := copyFrom_draws few source ready enrolled 0
    rw [← handed, kept] at gained
    rw [← handed] at draws
    exact ⟨_, made.trans draws, by rwa [Nat.zero_add]⟩
  cases throttle with
  | none => exact copies (Nat.le_refl copyLimit)
  | some throttle => exact copies (piece_le_copyLimit throttle)

namespace Body

/-- A body that is drained draws on its throttle alone, and pays for every byte that it gives. -/
theorem drain_draws {rate : Int} {channel : String} {size : Nat} (few : size ≤ copyLimit)
    (before : List Bytes) (left : Bytes) (session : Session)
    (enrolled : 0 < rate → (channel, rate) ∈ session.throttles) :
    let ended := drain (Throttle.of rate channel) size before left session
    ∃ count, session.Draws rate channel count ended.2.2 ∧
      ∀ bytes, ended.1 = .ok bytes → bytes.length = before.flatten.length + count := by
  fun_induction drain (Throttle.of rate channel) size before left session with
  | case1 before left session none =>
    refine ⟨0, .same rfl rfl, ?_⟩
    rintro bytes ⟨⟩
    simp
  | case2 before left session first rest taken piece fault session' refused =>
    have short : piece.length ≤ copyLimit := Nat.le_trans (length_taken_le taken) few
    have passed : session.Draws rate channel piece.length _ := .pass short enrolled
    rw [refused] at passed
    refine ⟨_, passed, ?_⟩
    intro bytes ended
    cases ended
  | case3 before left session first rest taken piece session' admitted ih =>
    have short : piece.length ≤ copyLimit := Nat.le_trans (length_taken_le taken) few
    have passed : session.Draws rate channel piece.length _ := .pass short enrolled
    rw [admitted] at passed
    obtain ⟨count, draws, given⟩ := ih fun limited => passed.mem_throttles (enrolled limited)
    refine ⟨_, passed.trans draws, ?_⟩
    intro bytes ended
    rw [given bytes ended, List.flatten_cons, List.length_append]
    omega

/-- The number of bytes that a read gave. -/
def given (outcome : Except Fault Bytes) : Nat :=
  match outcome with
  | .ok bytes => bytes.length
  | .error _ => 0

theorem pull_draws {rate : Int} {channel : String} {size : Int} (positive : 0 ≤ size)
    (few : size.toNat ≤ copyLimit) (buffer : Buffer) (session : Session)
    (enrolled : 0 < rate → (channel, rate) ∈ session.throttles) :
    let ended := pull (Throttle.of rate channel) size buffer session
    ∃ count, session.Draws rate channel count ended.2.2 ∧ given ended.1 ≤ count := by
  unfold pull
  split
  · exact ⟨0, .same rfl rfl, Nat.le_refl 0⟩
  · rename_i bytes next read
    have short : bytes.length ≤ copyLimit := by
      rw [(Buffer.read_ok read).1, Buffer.upTo, if_neg (Int.not_lt.mpr positive), List.length_take]
      omega
    have passed : session.Draws rate channel bytes.length _ := .pass short enrolled
    split <;> rename_i admitted <;> rw [admitted] at passed
    · exact ⟨_, passed, Nat.zero_le _⟩
    · exact ⟨_, passed, Nat.le_refl _⟩

/-- **A read draws on the throttle of its body**, which stays, and pays for every byte that it gives. -/
theorem read_draws {rate : Int} {channel : String} (limited : 0 < rate) {body : Body}
    (throttled : body.throttle = some ⟨rate, channel⟩) (size : Option Int) (session : Session)
    (enrolled : (channel, rate) ∈ session.throttles) :
    let ended := body.read size session
    ended.2.1.throttle = some ⟨rate, channel⟩ ∧
      ∃ count, session.Draws rate channel count ended.2.2 ∧ given ended.1 ≤ count := by
  obtain ⟨buffer, throttle⟩ := body
  cases throttled
  refine ⟨rfl, ?_⟩
  have this : Throttle.of rate channel = some ⟨rate, channel⟩ := if_neg (Int.not_le.mpr limited)
  have positive := Throttle.piece_pos limited
  simp only [read, readAt, readAll, ← this]
  split
  · split
    · exact ⟨0, .same rfl rfl, Nat.le_refl 0⟩
    · obtain ⟨count, draws, gives⟩ :=
        drain_draws (piece_le_copyLimit rate) [] buffer.rest session fun _ => enrolled
      refine ⟨count, draws, ?_⟩
      unfold given
      split
      · rename_i bytes ended
        have := gives bytes ended
        simp only [List.flatten_nil, List.length_nil] at this
        omega
      · exact Nat.zero_le _
  · rename_i asked size sized
    have wanted : 0 ≤ size := by simpa using (Option.filter_eq_some_iff.mp sized).2
    have few := piece_le_copyLimit rate
    exact pull_draws (by omega) (by omega) buffer session fun _ => enrolled

/-- What may become of a body and of the session of its readers: it is read in any sizes, and in between
something else may be done with its buffer. The number is that of the bytes that it gave. -/
inductive Used (body : Body) (session : Session) : Nat → Body → Session → Prop
  | start : Used body session 0 body session
  | read {count : Nat} {body' : Body} {session' : Session} (size : Option Int)
      (used : Used body session count body' session') :
      Used body session (count + given (body'.read size session').1) (body'.read size session').2.1
        (body'.read size session').2.2
  | move {count : Nat} {body' : Body} {session' : Session} (buffer : Buffer)
      (used : Used body session count body' session') : Used body session count { body' with buffer } session'

/-- **However a body is used, it draws on its throttle alone**, and pays for every byte that it gives. -/
theorem Used.draws {rate : Int} {channel : String} (limited : 0 < rate) {body body' : Body}
    (throttled : body.throttle = some ⟨rate, channel⟩) {session session' : Session}
    (enrolled : (channel, rate) ∈ session.throttles) {given : Nat}
    (used : Used body session given body' session') :
    body'.throttle = some ⟨rate, channel⟩ ∧
      ∃ count, session.Draws rate channel count session' ∧ given ≤ count := by
  induction used with
  | start => exact ⟨throttled, 0, .same rfl rfl, Nat.le_refl 0⟩
  | read size _ ih =>
    obtain ⟨throttled', count, before, paid⟩ := ih
    obtain ⟨throttled'', count', later, paid'⟩ :=
      read_draws limited throttled' size _ (before.mem_throttles enrolled)
    exact ⟨throttled'', _, before.trans later, Nat.add_le_add paid paid'⟩
  | move buffer _ ih => exact ih

end Body

end FossilVault
