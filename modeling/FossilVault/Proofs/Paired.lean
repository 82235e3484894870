import FossilVault.Proofs.Calls
/-
**Runs in pairs.** What a program does is decided by its session and by what it is answered. So two runs of it
from one session end alike, and leave alike worlds, when in alike worlds every call is answered alike.

* `Paired` — two runs that end alike;
* `Program.InPairs.of_only` — a program runs alike in worlds that none of its calls tells apart;
* `Program.InPairs.bind` — two sequences run alike if their parts do.
-/

namespace FossilVault

variable {I : Interface} {ω α β : Type}

/-- Two runs end with one outcome and in one session, and leave related worlds. -/
structure Paired (related : ω → ω → Prop) (ended ended' : α × Session × ω) : Prop where
  outcome : ended.1 = ended'.1
  session : ended.2.1 = ended'.2.1
  world : related ended.2.2 ended'.2.2

/-- In related worlds the call is answered alike, does the same to a session and leaves related worlds. -/
def Handler.Blind (h : Handler I ω) (related : ω → ω → Prop) (c : I.Call) : Prop :=
  ∀ session world world', related world world' → Paired related (h c session world) (h c session world')

namespace Program

/-- From one session and related worlds two programs end alike. -/
def InPairs (h : Handler I ω) (related : ω → ω → Prop) (program program' : Program I α) : Prop :=
  ∀ session world world', related world world' →
    Paired related (program.run h session world) (program'.run h session world')

namespace InPairs

variable {h : Handler I ω} {related : ω → ω → Prop}

/-- **A program does not tell worlds apart** that are told apart by none of the calls it makes. -/
theorem of_only {allowed : I.Call → Prop} {program : Program I α} (only : program.Only allowed)
    (blind : ∀ c, allowed c → h.Blind related c) : InPairs h related program program := by
  induction only with
  | done value => exact fun session world world' alike => ⟨rfl, rfl, alike⟩
  | fail fault => exact fun session world world' alike => ⟨rfl, rfl, alike⟩
  | look _ ih => exact fun session => ih session session
  | keep kept _ ih => exact fun _ => ih kept
  | @call c next permitted _ ih =>
    intro session world world' alike
    obtain ⟨answer, left, alike⟩ := blind c permitted session world world' alike
    rw [run, run]
    simp only [answer, left]
    exact ih _ _ _ _ alike

theorem refl (blind : ∀ c, h.Blind related c) (program : Program I α) :
    InPairs h related program program :=
  of_only program.only_any fun c _ => blind c

/-- **Sequences run alike if their parts do.** -/
theorem bind {first first' : Program I α} {next next' : α → Program I β}
    (before : InPairs h related first first') (after : ∀ value, InPairs h related (next value) (next' value)) :
    InPairs h related (first >>= next) (first' >>= next') := by
  intro session world world' alike
  have parts := before session world world' alike
  rw [run_bind, run_bind]
  generalize first.run h session world = ended at parts ⊢
  generalize first'.run h session world' = ended' at parts ⊢
  obtain ⟨outcome, left, world⟩ := ended
  obtain ⟨_, _, world'⟩ := ended'
  obtain ⟨rfl, rfl, alike⟩ := parts
  cases outcome with
  | ok value => exact after value left world world' alike
  | error fault => exact ⟨rfl, rfl, alike⟩

theorem attempt {program program' : Program I α} (alike : InPairs h related program program') :
    InPairs h related program.attempt program'.attempt := by
  intro session world world' same
  obtain ⟨outcome, left, world⟩ := alike session world world' same
  rw [run_attempt, run_attempt]
  exact ⟨congrArg Except.ok outcome, left, world⟩

end InPairs

end Program

end FossilVault
