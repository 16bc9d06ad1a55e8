import UnsafePerf.Concurrency.Program

/-!
# Threads that take turns

When calls do not overlap, each of them runs from its beginning to its end before the next one
starts, so what it does is `Program.exec` and a history is a fold over the calls. Such a history is
one of the interleavings of the service: every program ends after finitely many steps of its thread,
and the moves that make these steps are a run.
-/

namespace Concurrency

/-- The shared state and the locals of every thread, all threads being between calls. -/
structure Turns (τ σ ℓ : Type) where
  shared : σ
  locals : τ → ℓ

/-- The same as a configuration. -/
def Turns.config {τ σ ℓ : Type} (c : Turns τ σ ℓ) : Config τ σ ℓ :=
  ⟨c.shared, fun t ↦ .done (c.locals t)⟩

namespace Service

variable {τ κ σ ℓ : Type} [DecidableEq τ] (S : Service τ κ σ ℓ)

/-- A whole call. A call that is not allowed changes nothing. -/
def turn (c : Turns τ σ ℓ) (e : τ × κ) : Turns τ σ ℓ :=
  if S.allowed e.1 e.2 (c.locals e.1) c.shared then
    let r := (S.code e.1 e.2 (c.locals e.1)).exec c.shared
    ⟨r.2, Function.update c.locals e.1 r.1⟩
  else c

theorem turn_of_allowed {c : Turns τ σ ℓ} {t : τ} {k : κ}
    (hall : S.allowed t k (c.locals t) c.shared = true) :
    S.turn c (t, k) = ⟨((S.code t k (c.locals t)).exec c.shared).2,
      Function.update c.locals t ((S.code t k (c.locals t)).exec c.shared).1⟩ := if_pos hall

theorem turn_of_refused {c : Turns τ σ ℓ} {t : τ} {k : κ}
    (hall : ¬S.allowed t k (c.locals t) c.shared = true) : S.turn c (t, k) = c := if_neg hall

/-- One call after the other. -/
def turns (c : Turns τ σ ℓ) (calls : List (τ × κ)) : Turns τ σ ℓ := calls.foldl S.turn c

/-- Left alone, a thread finishes what it is doing. -/
theorem exists_steps (t : τ) (p : Program σ ℓ) (c : Config τ σ ℓ) (h : c.thread t = p) :
    ∃ n, S.run c (List.replicate n (.step t))
      = ⟨(p.exec c.shared).2, Function.update c.thread t (.done (p.exec c.shared).1)⟩ := by
  induction p generalizing c with
  | done l =>
    have hsame : Function.update c.thread t (.done l) = c.thread := by
      rw [← h, Function.update_eq_self]
    exact ⟨0, congrArg (Config.mk c.shared) hsame.symm⟩
  | atomic update next ih =>
    have hstep := S.move_step h
    obtain ⟨n, hn⟩ := ih c.shared ⟨update c.shared, Function.update c.thread t (next c.shared)⟩
      (Function.update_self ..)
    -- the first step, and then those of the rest of the program
    refine ⟨n + 1, ?_⟩
    rw [List.replicate_succ, run, List.foldl_cons, hstep]
    exact hn.trans (by rw [Function.update_idem]; rfl)

/-- A call by a thread that is between calls, with all its steps. -/
theorem exists_run_turn (c : Turns τ σ ℓ) (e : τ × κ) :
    ∃ ms, S.run c.config ms = (S.turn c e).config := by
  obtain ⟨t, k⟩ := e
  by_cases hall : S.allowed t k (c.locals t) c.shared = true
  · have hcall := S.move_call (c := c.config) k rfl hall
    obtain ⟨n, hn⟩ := S.exists_steps t (S.code t k (c.locals t)) (S.move c.config (.call t k))
      (by rw [hcall]; exact Function.update_self ..)
    refine ⟨Move.alone t k n, ?_⟩
    rw [Move.alone, run, List.foldl_cons]
    refine hn.trans ?_
    rw [hcall, turn_of_allowed S hall]
    exact congrArg (Config.mk _) ((Function.update_idem ..).trans
      (Function.comp_update Program.done c.locals t _).symm)
  · exact ⟨[], by rw [turn_of_refused S hall]; rfl⟩

/-- A history is a run. -/
theorem exists_run_turns (c : Turns τ σ ℓ) (calls : List (τ × κ)) :
    ∃ ms, S.run c.config ms = (S.turns c calls).config := by
  induction calls using List.reverseRecOn with
  | nil => exact ⟨[], rfl⟩
  | append_singleton calls e ih =>
    obtain ⟨ms, hms⟩ := ih
    obtain ⟨ms', hms'⟩ := S.exists_run_turn (S.turns c calls) e
    refine ⟨ms ++ ms', ?_⟩
    rw [run_append, hms, hms', turns, turns, List.foldl_append, List.foldl_cons, List.foldl_nil]

end Service

end Concurrency
