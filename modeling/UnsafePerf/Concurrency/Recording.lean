import UnsafePerf.Concurrency.RelyGuarantee

/-!
# Locals that record

What a thread has been given, and has not given back, is often known to the thread alone. A service
whose locals record it does what the service does that keeps no record, and the record is erased only
in the end: `Config.forget`.

The record may also decide which calls are permitted, where the other service reads the shared state.
As long as the two conditions agree, every run of the one service is the run of the other with the
same moves.
-/

namespace Concurrency

variable {τ κ σ ℓ ℓ' : Type} {g : ℓ' → ℓ}

/-- The configuration without what the locals record. -/
def Config.forget (g : ℓ' → ℓ) (c : Config τ σ ℓ') : Config τ σ ℓ :=
  ⟨c.shared, fun t ↦ g <$> c.thread t⟩

theorem Config.forget_idle_iff {c : Config τ σ ℓ'} {t : τ} {l : ℓ} :
    (c.forget g).Idle t l ↔ ∃ l', c.Idle t l' ∧ g l' = l := by
  change g <$> c.thread t = .done l ↔ ∃ l', c.thread t = .done l' ∧ g l' = l
  cases c.thread t with
  | done l' => simp
  | atomic update next =>
    have hbusy : g <$> Program.atomic update next = .atomic update fun s ↦ g <$> next s := rfl
    simp [hbusy]

namespace Service

variable [DecidableEq τ] {S : Service τ κ σ ℓ} {T : Service τ κ σ ℓ'}

/-- One move, with or without the record. -/
theorem move_forget (hcode : ∀ t k l, S.code t k (g l) = g <$> T.code t k l) (c : Config τ σ ℓ')
    (hallowed : ∀ t k l, c.Idle t l → S.allowed t k (g l) c.shared = T.allowed t k l c.shared)
    (m : Move τ κ) : S.move (c.forget g) m = (T.move c m).forget g := by
  have hupdate : ∀ (t : τ) (p : Program σ ℓ'), (fun u ↦ g <$> Function.update c.thread t p u)
      = Function.update (c.forget g).thread t (g <$> p) := fun t p ↦
    Function.comp_update (g <$> ·) c.thread t p
  rcases m with ⟨t, k⟩ | t
  · rcases ht : c.thread t with l | ⟨update, next⟩
    · have ht' : (c.forget g).thread t = .done (g l) := congrArg (g <$> ·) ht
      by_cases hall : T.allowed t k l c.shared = true
      · rw [T.move_call k ht hall, S.move_call k ht' ((hallowed t k l ht).trans hall), hcode]
        exact congrArg (Config.mk c.shared) (hupdate t _).symm
      · rw [T.move_call_refused k ht hall,
          S.move_call_refused k ht' ((hallowed t k l ht).symm ▸ hall)]
    · have ht' : (c.forget g).thread t = .atomic update fun s ↦ g <$> next s :=
        congrArg (g <$> ·) ht
      rw [T.move_call_busy k ht, S.move_call_busy k ht']
  · rcases ht : c.thread t with l | ⟨update, next⟩
    · have ht' : (c.forget g).thread t = .done (g l) := congrArg (g <$> ·) ht
      rw [T.move_step_idle ht, S.move_step_idle ht']
    · have ht' : (c.forget g).thread t = .atomic update fun s ↦ g <$> next s :=
        congrArg (g <$> ·) ht
      rw [T.move_step ht, S.move_step ht']
      exact congrArg (Config.mk (update c.shared)) (hupdate t _).symm

/-- A run with the record is, without it, the run of the other service. -/
theorem run_forget (hcode : ∀ t k l, S.code t k (g l) = g <$> T.code t k l) (c : Config τ σ ℓ')
    (ms : List (Move τ κ))
    (hallowed : ∀ pre t k l, (T.run c pre).Idle t l →
      S.allowed t k (g l) (T.run c pre).shared = T.allowed t k l (T.run c pre).shared) :
    S.run (c.forget g) ms = (T.run c ms).forget g := by
  induction ms using List.reverseRecOn with
  | nil => rfl
  | append_singleton ms m ih =>
    rw [run_append_singleton, run_append_singleton, ih]
    exact move_forget hcode _ (hallowed ms) m

end Service

end Concurrency
