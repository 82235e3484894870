import FossilVault.Proofs.Turns
/-
**Exchanges.** What a program asks of a remote and what it is answered, in order. A remote that records its
calls sees the same ones, a sequence has the exchanges of its parts, and what follows the last call of a
program adds none.

* `Program.exchanges`, `Program.calls_recorded` — the exchanges of a run, and the calls that are recorded;
* `Program.exchanges_bind` — the exchanges of a sequence;
* `Program.Only.exchanges_allowed` — they are about the calls that a program may make, and
  `Program.Only.exchanges_quiet` — a program that calls nothing has none.
-/

namespace FossilVault

variable {I : Interface} {ω α β : Type}

/-- A call and what it was answered. -/
structure Exchange (I : Interface) where
  call : I.Call
  answer : Except Fault (I.Reply call)

namespace Program

/-- What a program asks of a remote and is answered, in order. -/
def exchanges (h : Handler I ω) : Program I α → Session → ω → List (Exchange I)
  | .done _, _, _ => []
  | .fail _, _, _ => []
  | .look next, session, world => (next session).exchanges h session world
  | .keep session next, _, world => next.exchanges h session world
  | .call c next, session, world =>
    let answered := h c session world
    ⟨c, answered.1⟩ :: (next answered.1).exchanges h answered.2.1 answered.2.2

/-- **What a program asks is what is recorded of it.** -/
theorem calls_recorded (h : Handler I ω) (program : Program I α) (session : Session)
    (watched : Watched I ω) :
    (program.run h.recorded session watched).2.2.calls =
      ((program.exchanges h session watched.world).map Exchange.call).reverse ++ watched.calls := by
  induction program generalizing session watched with
  | done value => rfl
  | fail fault => rfl
  | look rest ih => exact ih session session watched
  | keep kept rest ih => exact ih kept watched
  | call c rest ih =>
    rw [run, Handler.recorded_eq]
    refine (ih _ _ _).trans ?_
    rw [exchanges, List.map_cons, List.reverse_cons, List.append_assoc, List.singleton_append]

/-- **A sequence has the exchanges of its parts.** -/
theorem exchanges_bind (h : Handler I ω) (first : Program I α) (next : α → Program I β)
    (session : Session) (world : ω) :
    (first >>= next).exchanges h session world =
      first.exchanges h session world ++
        match first.run h session world with
        | (.ok value, session', world') => (next value).exchanges h session' world'
        | (.error _, _, _) => [] := by
  change (first.bind next).exchanges h session world = _
  induction first generalizing session world with
  | done value => rfl
  | fail fault => rfl
  | look rest ih => exact ih session session world
  | keep kept rest ih => exact ih kept world
  | call c rest ih => exact congrArg (_ :: ·) (ih _ _ _)

/-- A sequence that comes to a result came to one in both of its parts. -/
theorem run_bind_ok {h : Handler I ω} {first : Program I α} {next : α → Program I β}
    {session session'' : Session} {world world'' : ω} {result : β}
    (ended : (first >>= next).run h session world = (.ok result, session'', world'')) :
    ∃ value session' world', first.run h session world = (.ok value, session', world') ∧
      (next value).run h session' world' = (.ok result, session'', world'') ∧
      (first >>= next).exchanges h session world =
        first.exchanges h session world ++ (next value).exchanges h session' world' := by
  rw [run_bind] at ended
  rw [exchanges_bind]
  generalize first.run h session world = ran at ended ⊢
  obtain ⟨outcome, session', world'⟩ := ran
  cases outcome with
  | error fault => cases ended
  | ok value => exact ⟨value, session', world', rfl, ended, rfl⟩

theorem run_note_bind (h : Handler I ω) (level : Log.Level) (part : Log.Part) (message : String)
    (next : Unit → Program I α) (session : Session) (world : ω) :
    (note level part message >>= next).run h session world =
      (next ()).run h (session.note level part message) world := rfl

theorem exchanges_note_bind (h : Handler I ω) (level : Log.Level) (part : Log.Part) (message : String)
    (next : Unit → Program I α) (session : Session) (world : ω) :
    (note level part message >>= next).exchanges h session world =
      (next ()).exchanges h (session.note level part message) world := rfl

@[simp] theorem exchanges_attempt (h : Handler I ω) (program : Program I α) (session : Session)
    (world : ω) : program.attempt.exchanges h session world = program.exchanges h session world := by
  induction program generalizing session world with
  | done value => rfl
  | fail fault => rfl
  | look rest ih => exact ih session session world
  | keep kept rest ih => exact ih kept world
  | call c rest ih => exact congrArg (_ :: ·) (ih _ _ _)

@[simp] theorem exchanges_ofExcept (h : Handler I ω) (outcome : Except Fault α) (session : Session)
    (world : ω) : (ofExcept outcome : Program I α).exchanges h session world = [] := by
  cases outcome <;> rfl

@[simp] theorem exchanges_ask (h : Handler I ω) (c : I.Call) (session : Session) (world : ω) :
    (ask c).exchanges h session world = [⟨c, (h c session world).1⟩] := by
  simp [ask, exchanges]

/-- **What a program is answered, it was allowed to ask.** -/
theorem Only.exchanges_allowed {allowed : I.Call → Prop} {program : Program I α}
    (only : program.Only allowed) (h : Handler I ω) (session : Session) (world : ω) :
    ∀ exchange ∈ program.exchanges h session world, allowed exchange.call := by
  induction only generalizing session world with
  | done value => exact nofun
  | fail fault => exact nofun
  | look _ ih => exact ih session session world
  | keep kept _ ih => exact ih kept world
  | @call c next permitted _ ih =>
    intro exchange among
    rcases List.mem_cons.mp among with rfl | later
    · exact permitted
    · exact ih _ _ _ exchange later

/-- A program that calls nothing has no exchanges. -/
theorem Only.exchanges_quiet {program : Program I α} (quiet : program.Only fun _ => False)
    (h : Handler I ω) (session : Session) (world : ω) : program.exchanges h session world = [] :=
  List.eq_nil_iff_forall_not_mem.mpr (quiet.exchanges_allowed h session world)

/-- A program that makes one call and then no other has one exchange. -/
theorem exchanges_ask_bind (h : Handler I ω) {c : I.Call} {next : I.Reply c → Program I α}
    (quiet : ∀ reply, (next reply).Only fun _ => False) (session : Session) (world : ω) :
    (ask c >>= next).exchanges h session world = [⟨c, (h c session world).1⟩] := by
  rw [exchanges_bind, exchanges_ask, run_ask]
  generalize h c session world = answered
  obtain ⟨outcome, session', world'⟩ := answered
  cases outcome with
  | error fault => rfl
  | ok reply => simp only [(quiet reply).exchanges_quiet, List.append_nil]

end Program

end FossilVault
