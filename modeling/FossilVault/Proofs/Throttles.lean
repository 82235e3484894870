import FossilVault.Throttle
/-
**Shares and throttles.** A global limit is shared evenly, and a share is never rounded down to none. A
throttle is known by its channel and its rate: asked for again it is the one that was made before, and it is
the only one of its channel and rate.

* `evenShare_share`, `EvenShare.le_max` — what a share is worth, and what all shares are together;
* `Session.prefix_enrol`, `Session.nodup_enrol` — one that is there keeps its number, and none is made twice;
* `Session.handsOut` — which throttles are handed out, whatever is asked for one after the other.
-/

namespace FossilVault

/-! ### Shares -/

/-- The rate is an even share of a limit among workers, rounded down but never to none. -/
structure EvenShare (limit workers rate : Int) : Prop where
  divided : workers ≠ 0 ∧ rate = max 1 (limit / workers)
  positive : 1 ≤ rate
  small : limit < workers → rate = 1
  large : workers ≤ limit → workers * rate ≤ limit ∧ limit < workers * (rate + 1)

/-- **A limit is shared evenly.** -/
theorem evenShare_share {limit workers : Int} (limited : 0 < limit) (staffed : 1 ≤ workers) :
    EvenShare limit workers (share limit workers) := by
  have divided : share limit workers = max 1 (limit / workers) := by
    rw [share, if_neg (Int.not_le.mpr limited), Int.max_eq_right staffed]
  constructor
  case divided => exact ⟨Int.ne_of_gt staffed, divided⟩
  case positive => exact share_pos limited workers
  case small =>
    intro small
    rw [divided, Int.ediv_eq_zero_of_lt (Int.le_of_lt limited) small]
    rfl
  case large =>
    intro large
    have whole : 1 ≤ limit / workers := Int.le_ediv_of_mul_le staffed (by omega)
    have parts := Int.mul_ediv_add_emod limit workers
    have rest := Int.emod_lt_of_pos limit staffed
    have some_rest := Int.emod_nonneg limit (Int.ne_of_gt staffed)
    rw [divided, Int.max_eq_right whole, Int.mul_add]
    omega

/-- All shares together are no more than the limit, or than one for each worker. -/
theorem EvenShare.le_max {limit workers rate : Int} (even : EvenShare limit workers rate) :
    workers * rate ≤ max limit workers := by
  by_cases small : limit < workers
  · rw [even.small small]
    omega
  · have := (even.large (Int.not_lt.mp small)).1
    omega

/-! ### The throttles that were made -/

namespace Session

theorem throttles_enrol (rate : Int) (channel : String) (session : Session) :
    (session.enrol rate channel).2.throttles =
      if rate ≤ 0 ∨ (channel, rate) ∈ session.throttles then session.throttles
      else session.throttles ++ [(channel, rate)] := by
  rcases session.enrol_cases rate channel with ⟨free, made⟩ | ⟨_, _, there, made⟩ | ⟨limited, fresh, made⟩
  · rw [made, if_pos (.inl free)]
  · rw [made, if_pos (.inr (List.mem_of_getElem? there))]
  · rw [made, if_neg (not_or.mpr ⟨Int.not_le.mpr limited, fresh⟩)]
    exact session.makeThrottle_throttles rate channel

theorem requests_throttleFor (rate : Int) (channel : String) (session : Session) :
    (session.throttleFor rate channel).2.requests = session.requests := by
  rw [throttleFor_snd]
  rcases session.enrol_snd rate channel with same | made
  · rw [same]
  · rw [made]
    rfl

theorem nodup_enrolled {throttles : List (String × Int)} {key : String × Int} (distinct : throttles.Nodup)
    (fresh : key ∉ throttles) : (throttles ++ [key]).Nodup := by
  refine List.nodup_append.mpr ⟨distinct, by simp, ?_⟩
  rintro other among _ last rfl
  exact fresh (List.mem_singleton.mp last ▸ among)

/-- No throttle is made twice. -/
theorem nodup_enrol {rate : Int} {channel : String} {session : Session}
    (distinct : session.throttles.Nodup) : (session.enrol rate channel).2.throttles.Nodup := by
  rw [throttles_enrol]
  split
  · exact distinct
  · rename_i fresh
    exact nodup_enrolled distinct fun known => fresh (.inr known)

/-- A throttle keeps its number when others are made. -/
theorem prefix_enrol (rate : Int) (channel : String) (session : Session) :
    session.throttles <+: (session.enrol rate channel).2.throttles := by
  rw [throttles_enrol]
  split
  · exact List.prefix_rfl
  · exact List.prefix_append _ _

/-! ### Throttles that are handed out -/

/-- What is handed out for a rate and a channel: a throttle and its number, or nothing. -/
structure Handed where
  number : Option Nat
  throttle : Option Throttle
  deriving DecidableEq

/-- Asks for the throttles of rates and channels, one after the other. -/
def handOut : List (Int × String) → Session → List Handed × Session
  | [], session => ([], session)
  | (rate, channel) :: rest, session =>
    let made := session.throttleFor rate channel
    let later := handOut rest made.2
    (⟨(session.enrol rate channel).1, made.1⟩ :: later.1, later.2)

theorem nodup_handOut (asked : List (Int × String)) {session : Session}
    (distinct : session.throttles.Nodup) : (handOut asked session).2.throttles.Nodup := by
  induction asked generalizing session with
  | nil => exact distinct
  | cons first rest ih => exact ih (nodup_enrol distinct)

theorem prefix_handOut (asked : List (Int × String)) (session : Session) :
    session.throttles <+: (handOut asked session).2.throttles := by
  induction asked generalizing session with
  | nil => exact List.prefix_rfl
  | cons first rest ih => exact (prefix_enrol first.1 first.2 session).trans (ih _)

theorem handOut_unlimited {asked : List (Int × String)} {place : Nat} {rate : Int} {channel : String}
    (here : asked[place]? = some (rate, channel)) (free : rate ≤ 0) (session : Session) :
    (handOut asked session).1[place]? = some ⟨none, none⟩ := by
  induction asked generalizing place session with
  | nil => cases here
  | cons first rest ih =>
    cases place with
    | succ place => exact ih here _
    | zero =>
      cases here
      have nothing : session.enrol rate channel = (none, session) := if_pos free
      simp only [handOut, throttleFor, nothing, Option.bind_none, List.getElem?_cons_zero]

/-- What is handed out for a limit has its channel and its rate, and is found at its number from then on. -/
theorem handOut_limited {asked : List (Int × String)} {place : Nat} {rate : Int} {channel : String}
    (here : asked[place]? = some (rate, channel)) (limited : 0 < rate) (session : Session) :
    ∃ number, (handOut asked session).1[place]? = some ⟨some number, some ⟨rate, channel⟩⟩ ∧
      (handOut asked session).2.throttles[number]? = some (channel, rate) := by
  induction asked generalizing place session with
  | nil => cases here
  | cons first rest ih =>
    cases place with
    | succ place => exact ih here _
    | zero =>
      cases here
      obtain ⟨number, given, there⟩ := exists_enrolled limited channel session
      refine ⟨number, ?_, ?_⟩
      · simp only [handOut, throttleFor_fst, given, if_neg (Int.not_le.mpr limited),
          List.getElem?_cons_zero]
      · obtain ⟨later, grown⟩ := prefix_handOut rest (session.throttleFor rate channel).2
        show (handOut rest (session.throttleFor rate channel).2).2.throttles[number]? = _
        rw [← grown, throttleFor_snd,
          List.getElem?_append_left (List.getElem?_eq_some_iff.mp there).1, there]

/-- What is handed out when throttles are asked for one after the other: nothing for no limit, otherwise a
throttle of the channel and the rate that were asked for, and the same one for the same channel and rate
alone. Those that were there keep their numbers, and no throttle is made twice. -/
structure HandsOut (asked : List (Int × String)) (session : Session) : Prop where
  kept : session.throttles <+: (handOut asked session).2.throttles
  distinct : (handOut asked session).2.throttles.Nodup
  unlimited : ∀ (place : Nat) (rate : Int) (channel : String), asked[place]? = some (rate, channel) →
    rate ≤ 0 → (handOut asked session).1[place]? = some ⟨none, none⟩
  limited : ∀ (place : Nat) (rate : Int) (channel : String), asked[place]? = some (rate, channel) →
    0 < rate →
      ∃ number, (handOut asked session).1[place]? = some ⟨some number, some ⟨rate, channel⟩⟩ ∧
        (handOut asked session).2.throttles[number]? = some (channel, rate)
  same_iff : ∀ (place place' : Nat) (rate rate' : Int) (channel channel' : String),
    asked[place]? = some (rate, channel) → asked[place']? = some (rate', channel') →
    0 < rate → 0 < rate' →
      ((handOut asked session).1[place]?.map Handed.number =
          (handOut asked session).1[place']?.map Handed.number ↔
        channel = channel' ∧ rate = rate')

/-- **Throttles are handed out by channel and rate**, whatever is asked for one after the other. -/
theorem handsOut (asked : List (Int × String)) {session : Session} (distinct : session.throttles.Nodup) :
    session.HandsOut asked := by
  have once := nodup_handOut asked distinct
  constructor
  case kept => exact prefix_handOut asked session
  case distinct => exact once
  case unlimited =>
    intro place rate channel here free
    exact handOut_unlimited here free session
  case limited =>
    intro place rate channel here limited
    exact handOut_limited here limited session
  case same_iff =>
    intro place place' rate rate' channel channel' here there limited limited'
    obtain ⟨number, given, known⟩ := handOut_limited here limited session
    obtain ⟨number', given', known'⟩ := handOut_limited there limited' session
    rw [given, given', Option.map_some, Option.map_some, Option.some_inj, Option.some_inj]
    constructor
    · rintro rfl
      rw [known, Option.some_inj, Prod.mk.injEq] at known'
      exact known'
    · rintro ⟨rfl, rfl⟩
      have inside := (List.getElem?_eq_some_iff.mp known).1
      exact (List.getElem?_inj inside once).mp (known.trans known'.symm)

end Session

end FossilVault
