import UnsafePerf.Concurrency.Once
import Mathlib.Algebra.Order.BigOperators.Group.Finset

/-!
# Budgets

A counter of fixed width counts what is added to it until it wraps. That it never wraps is a question
of budgets: a program that spends at most `n` on a measure adds to it, step by step, no more than `n`
in all, and exactly what it means to add as long as the measure stays under its bound. If what all
calls of a run may spend is under the bound, no step of the run wraps: the measure never decreases
(`Service.measure_le`) and never exceeds what the calls cost (`Service.measure_le_cost`).
-/

namespace Concurrency

namespace Program

variable {σ α β : Type} (measure : σ → ℕ) (B : ℕ)

/-- The program adds at most `n` to the measure, as long as that stays under its bound. -/
def Spends : ℕ → Program σ α → Prop
  | _, .done _ => True
  | n, .atomic update next => ∀ s, ∃ d n', n' + d ≤ n ∧
    (measure s + d < B → measure (update s) = measure s + d) ∧ (next s).Spends n'

variable {measure B} {n m : ℕ}

theorem spends_done (a : α) : (.done a : Program σ α).Spends measure B n := trivial

theorem Spends.mono {p : Program σ α} (h : p.Spends measure B n) (hle : n ≤ m) :
    p.Spends measure B m := by
  rcases p with a | ⟨u, k⟩
  · trivial
  · intro s
    obtain ⟨d, n', hn', hrest⟩ := h s
    exact ⟨d, n', hn'.trans hle, hrest⟩

theorem Spends.bind {p : Program σ α} {f : α → Program σ β} (h : p.Spends measure B n)
    (hf : ∀ a, (f a).Spends measure B m) : (p >>= f).Spends measure B (n + m) := by
  induction p generalizing n with
  | done a => exact (hf a).mono (Nat.le_add_left m n)
  | atomic u k ih =>
    intro s
    obtain ⟨d, n', hn', hadd, hrest⟩ := h s
    exact ⟨d, n' + m, by omega, hadd, ih s hrest⟩

/-- One addition. -/
theorem spends_rmw {f : σ → α × σ}
    (h : ∀ s, measure s + n < B → measure (f s).2 = measure s + n) :
    (rmw f).Spends measure B n :=
  fun s ↦ ⟨n, 0, (Nat.zero_add n).le, h s, trivial⟩

/-- Steps that leave the measure as it is are free. -/
theorem Steps.spends {p : Program σ α}
    (h : p.Steps (fun _ _ ↦ True) fun s s' ↦ measure s' = measure s) : p.Spends measure B n := by
  induction p with
  | done a => trivial
  | atomic u k ih =>
    intro s
    obtain ⟨hsame, hrest⟩ := h s trivial
    exact ⟨0, n, le_refl n, fun _ ↦ hsame, ih s hrest⟩

end Program

namespace Service

variable {τ κ σ ℓ : Type} [DecidableEq τ] [Fintype τ] (S : Service τ κ σ ℓ) {measure : σ → ℕ}
  {B : ℕ} {price : κ → ℕ}

/-- What is spent and what the threads may still spend is no more than the calls cost. -/
theorem run_spends (hcode : ∀ t k l, (S.code t k l).Spends measure B (price k))
    {c : Config τ σ ℓ} (hstart : ∀ t, (c.thread t).Spends measure B 0) {ms : List (Move τ κ)}
    (hB : measure c.shared + cost price ms < B) :
    ∃ budget : τ → ℕ, (∀ t, ((S.run c ms).thread t).Spends measure B (budget t)) ∧
      measure (S.run c ms).shared + ∑ t, budget t ≤ measure c.shared + cost price ms := by
  induction ms using List.reverseRecOn with
  | nil => exact ⟨fun _ ↦ 0, hstart, by simp [cost]⟩
  | append_singleton ms m ih =>
    rw [cost_append] at hB ⊢
    obtain ⟨budget, hbudget, hsum⟩ := ih (by omega)
    rw [run_append_singleton]
    generalize S.run c ms = d at hbudget hsum
    rcases m with ⟨t, k⟩ | t
    · by_cases hidle : ∃ l, d.thread t = .done l ∧ S.allowed t k l d.shared = true
      · obtain ⟨l, ht, hall⟩ := hidle
        rw [S.move_call k ht hall]
        refine ⟨Function.update budget t (price k), fun u ↦ ?_, ?_⟩
        · by_cases hu : u = t
          · subst hu
            simpa only [Function.update_self] using hcode u k l
          · simpa only [Function.update_of_ne hu] using hbudget u
        · have hbudgets := sum_update_add budget t (price k)
          simp only [cost]
          omega
      · rw [S.move_call_ignored hidle]
        exact ⟨budget, hbudget, by omega⟩
    · rcases ht : d.thread t with l | ⟨update, next⟩
      · rw [S.move_step_idle ht]
        exact ⟨budget, hbudget, by omega⟩
      · have hstep := hbudget t
        rw [ht] at hstep
        obtain ⟨e, n', hn', hadd, hrest⟩ := hstep d.shared
        have hbudgets := sum_update_add budget t n'
        rw [S.move_step ht]
        refine ⟨Function.update budget t n', fun u ↦ ?_, ?_⟩
        · by_cases hu : u = t
          · subst hu
            simpa only [Function.update_self] using hrest
          · simpa only [Function.update_of_ne hu] using hbudget u
        · have hterm := Finset.single_le_sum (fun u _ ↦ Nat.zero_le (budget u)) (Finset.mem_univ t)
          dsimp only at hterm ⊢
          rw [hadd (by omega)]
          omega

section Bounds

variable (hcode : ∀ t k l, (S.code t k l).Spends measure B (price k)) {c : Config τ σ ℓ}
  (hstart : ∀ t, (c.thread t).Spends measure B 0) {ms : List (Move τ κ)}
  (hB : measure c.shared + cost price ms < B)

include hcode hstart hB

theorem measure_le_cost : measure (S.run c ms).shared ≤ measure c.shared + cost price ms := by
  obtain ⟨budget, -, hsum⟩ := S.run_spends hcode hstart hB
  omega

/-- **Nothing wraps.** No step of the run decreases the measure. -/
theorem measure_le {pre : List (Move τ κ)} {m : Move τ κ} (hpre : pre ++ [m] <+: ms) :
    measure (S.run c pre).shared ≤ measure (S.run c (pre ++ [m])).shared := by
  obtain ⟨rest, rfl⟩ := hpre
  rw [cost_append, cost_append] at hB
  have hless : measure c.shared + cost price pre < B := by omega
  obtain ⟨budget, hbudget, hsum⟩ := S.run_spends hcode hstart hless
  rw [run_append_singleton]
  generalize S.run c pre = d at hbudget hsum
  rcases m with ⟨t, k⟩ | t
  · by_cases hidle : ∃ l, d.thread t = .done l ∧ S.allowed t k l d.shared = true
    · obtain ⟨l, ht, hall⟩ := hidle
      rw [S.move_call k ht hall]
    · rw [S.move_call_ignored hidle]
  · rcases ht : d.thread t with l | ⟨update, next⟩
    · rw [S.move_step_idle ht]
    · have hstep := hbudget t
      rw [ht] at hstep
      obtain ⟨e, n', hn', hadd, -⟩ := hstep d.shared
      have hterm := Finset.single_le_sum (fun u _ ↦ Nat.zero_le (budget u)) (Finset.mem_univ t)
      rw [S.move_step ht]
      dsimp only at hterm ⊢
      rw [hadd (by omega)]
      omega

end Bounds

end Service

end Concurrency
