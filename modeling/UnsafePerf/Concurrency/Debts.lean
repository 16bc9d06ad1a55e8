import UnsafePerf.Concurrency.Observer
import Mathlib.Algebra.BigOperators.Group.Finset.Basic

/-!
# Debts

Two figures that a call keeps in step, a counter and what it counts, are changed by different steps of
the call, so they differ while calls are in progress. Their difference is a *balance*, in some
commutative group. `Program.Owing` follows what a program has added to the balance by its own steps:
as long as this is not zero the program owes it.

The others add to the balance as well, but every thread has an account of its own. If every call ends
with nothing owed, the balance is at every moment what the calls in progress owe, and whenever no call
is in progress it is what it was at the start (`Service.balance_of_idle`), in whatever order the steps
came.

What a step adds may depend on what the thread knows of the shared state. Every state of the run
satisfies `inv`, and between two steps of the thread the state changes by `rely`.
-/

namespace Concurrency

namespace Program

variable {σ α β M : Type} [AddCommGroup M] (inv : σ → Prop) (rely : σ → σ → Prop) (balance : σ → M)

/-- A program that owes `n` returns with a debt that `Q` allows. -/
def Owing (Q : α → M → σ → Prop) : Program σ α → M → σ → Prop
  | .done a, n, s => ∀ s', rely s s' → inv s' → Q a n s'
  | .atomic update next, n, s => ∀ s', rely s s' → inv s' →
    (next s').Owing Q (n + (balance (update s') - balance s')) (update s')

variable {inv rely balance} {P : α → M → σ → Prop} {Q : β → M → σ → Prop} {n : M} {s s' : σ}

theorem owing_done {a : α} (h : ∀ s', rely s s' → inv s' → P a n s') :
    (.done a : Program σ α).Owing inv rely balance P n s := h

theorem Owing.mono {P' : α → M → σ → Prop} {p : Program σ α}
    (h : p.Owing inv rely balance P n s) (hP : ∀ a m s', P a m s' → P' a m s') :
    p.Owing inv rely balance P' n s := by
  induction p generalizing n s with
  | done a => exact fun s' hr hi ↦ hP a n s' (h s' hr hi)
  | atomic u k ih => exact fun s' hr hi ↦ ih s' (h s' hr hi)

/-- What is known of a program survives what its thread relies on. -/
theorem Owing.of_rely (htrans : ∀ {s₁ s₂ s₃}, rely s₁ s₂ → rely s₂ s₃ → rely s₁ s₃)
    {p : Program σ α} (h : p.Owing inv rely balance P n s) (hr : rely s s') :
    p.Owing inv rely balance P n s' := by
  rcases p with a | ⟨u, k⟩
  · exact fun s₁ h₁ ↦ h s₁ (htrans hr h₁)
  · exact fun s₁ h₁ ↦ h s₁ (htrans hr h₁)

/-- What is known may be established after the others have moved. -/
theorem owing_intro (hrefl : ∀ s, rely s s) {p : Program σ α}
    (h : ∀ s', rely s s' → inv s' → p.Owing inv rely balance P n s') :
    p.Owing inv rely balance P n s := by
  rcases p with a | ⟨u, k⟩
  · exact fun s₁ h₁ hi ↦ h s₁ h₁ hi s₁ (hrefl s₁) hi
  · exact fun s₁ h₁ hi ↦ h s₁ h₁ hi s₁ (hrefl s₁) hi

theorem Owing.bind (hrefl : ∀ s, rely s s) {p : Program σ α} {f : α → Program σ β}
    (h : p.Owing inv rely balance P n s)
    (hf : ∀ a m s', P a m s' → (f a).Owing inv rely balance Q m s') :
    (p >>= f).Owing inv rely balance Q n s := by
  induction p generalizing n s with
  | done a => exact owing_intro hrefl fun s' hr hi ↦ hf a n s' (h s' hr hi)
  | atomic u k ih => exact fun s' hr hi ↦ ih s' (h s' hr hi)

theorem Owing.map {f : α → β} {p : Program σ α}
    (h : p.Owing inv rely balance (fun a ↦ Q (f a)) n s) :
    (f <$> p).Owing inv rely balance Q n s := by
  induction p generalizing n s with
  | done a => exact h
  | atomic u k ih => exact fun s' hr hi ↦ ih s' (h s' hr hi)

theorem owing_rmw {f : σ → α × σ} (h : ∀ s₁, rely s s₁ → inv s₁ → ∀ s₂, rely (f s₁).2 s₂ → inv s₂ →
      P (f s₁).1 (n + (balance (f s₁).2 - balance s₁)) s₂) :
    (rmw f).Owing inv rely balance P n s := h

/-- A step that adds a fixed amount and leaves alone what the thread knows. -/
theorem owing_step {K : σ → Prop} {f : σ → α × σ} {d : M}
    (hstable : ∀ {s s'}, K s → rely s s' → K s') (hkeep : ∀ s, K s → K (f s).2)
    (hadd : ∀ s, inv s → K s → balance (f s).2 = balance s + d) (h : K s) :
    (rmw f).Owing inv rely balance (fun _ m s' ↦ m = n + d ∧ K s') n s := by
  refine owing_rmw fun s₁ h₁ hi₁ s₂ h₂ _ ↦ ?_
  have h₁' := hstable h h₁
  rw [hadd s₁ hi₁ h₁', add_sub_cancel_left]
  exact ⟨rfl, hstable (hkeep s₁ h₁') h₂⟩

end Program

namespace Service

variable {τ κ σ ℓ M : Type} [DecidableEq τ] [AddCommGroup M] (S : Service τ κ σ ℓ) {inv : σ → Prop}
  {rely : τ → σ → σ → Prop} {balance : σ → M}

/-- A sum after a change at one place. -/
theorem sum_update_group [Fintype τ] (f : τ → M) (t : τ) (d : M) :
    ∑ u, Function.update f t (f t + d) u = ∑ u, f u + d := by
  rw [← Finset.add_sum_erase _ _ (Finset.mem_univ t), ← Finset.add_sum_erase _ f (Finset.mem_univ t),
    Function.update_self, Finset.sum_congr rfl fun u hu ↦
      Function.update_of_ne (Finset.ne_of_mem_erase hu) (f t + d) f]
  exact add_right_comm ..

section Runs

variable [Fintype τ] (hrefl : ∀ t s, rely t s s)
  (htrans : ∀ t {s₁ s₂ s₃}, rely t s₁ s₂ → rely t s₂ s₃ → rely t s₁ s₃) {c : Config τ σ ℓ}
  (hstart : ∀ t, (c.thread t).Owing inv (rely t) balance (fun _ n _ ↦ n = 0) 0 c.shared)
  (hinv : ∀ ms, inv (S.run c ms).shared)
  (hrely : ∀ ms m t, m ≠ .step t → rely t (S.run c ms).shared (S.run c (ms ++ [m])).shared)
  (hcode : ∀ ms t k l, (S.run c ms).Idle t l → S.allowed t k l (S.run c ms).shared = true →
    (S.code t k l).Owing inv (rely t) balance (fun _ n _ ↦ n = 0) 0 (S.run c ms).shared)

include hrefl htrans hstart hinv hrely hcode

/-- The balance has changed by what the threads owe. -/
theorem run_owing (ms : List (Move τ κ)) :
    ∃ debt : τ → M, (∀ t, ((S.run c ms).thread t).Owing inv (rely t) balance
        (fun _ n _ ↦ n = 0) (debt t) (S.run c ms).shared) ∧
      balance (S.run c ms).shared = balance c.shared + ∑ t, debt t := by
  induction ms using List.reverseRecOn with
  | nil => exact ⟨fun _ ↦ 0, hstart, by simp⟩
  | append_singleton ms m ih =>
    obtain ⟨debt, hdebt, hsum⟩ := ih
    have hother := hrely ms m
    have hi := hinv ms
    have hcode := hcode ms
    rw [run_append_singleton] at hother ⊢
    generalize S.run c ms = d at hdebt hsum hother hi hcode
    have hkept : ∀ u, m ≠ .step u → (d.thread u).Owing inv (rely u) balance
        (fun _ n _ ↦ n = 0) (debt u) (S.move d m).shared := by
      intro u hu
      refine Program.Owing.of_rely ?_ (hdebt u) (hother u hu)
      exact htrans u
    rcases m with ⟨t, k⟩ | t
    · by_cases hidle : ∃ l, d.thread t = .done l ∧ S.allowed t k l d.shared = true
      · obtain ⟨l, ht, hall⟩ := hidle
        have hzero : debt t = 0 := by
          have h := hdebt t
          rw [ht] at h
          exact h d.shared (hrefl t _) hi
        rw [S.move_call k ht hall]
        refine ⟨debt, fun u ↦ ?_, hsum⟩
        by_cases hu : u = t
        · subst hu
          simp only [Function.update_self]
          exact hzero ▸ hcode u k l ht hall
        · simpa only [Function.update_of_ne hu] using hdebt u
      · refine ⟨debt, ?_⟩
        rcases ht : d.thread t with l | ⟨update, next⟩
        · rw [S.move_call_refused k ht fun hall ↦ hidle ⟨l, ht, hall⟩]
          exact ⟨hdebt, hsum⟩
        · rw [S.move_call_busy k ht]
          exact ⟨hdebt, hsum⟩
    · rcases ht : d.thread t with l | ⟨update, next⟩
      · rw [S.move_step_idle ht]
        exact ⟨debt, hdebt, hsum⟩
      · have hstep := hdebt t
        rw [ht] at hstep
        rw [S.move_step ht] at hkept ⊢
        refine ⟨Function.update debt t (debt t + (balance (update d.shared) - balance d.shared)),
          fun u ↦ ?_, ?_⟩
        · by_cases hu : u = t
          · subst hu
            simpa only [Function.update_self] using hstep d.shared (hrefl u _) hi
          · simpa only [Function.update_of_ne hu] using
              hkept u fun h ↦ hu (Move.step.inj h).symm
        · rw [sum_update_group, ← add_assoc, ← hsum]
          exact (add_sub_cancel _ _).symm

/-- **Nothing is owed between calls.** Whenever no call is in progress the balance is what it was at
the start. -/
theorem balance_of_idle {ms : List (Move τ κ)} (hidle : ∀ t, ∃ l, (S.run c ms).Idle t l) :
    balance (S.run c ms).shared = balance c.shared := by
  obtain ⟨debt, hdebt, hsum⟩ := S.run_owing hrefl htrans hstart hinv hrely hcode ms
  rw [hsum, Finset.sum_eq_zero, add_zero]
  intro t _
  obtain ⟨l, hl⟩ := hidle t
  have h := hdebt t
  rw [hl] at h
  exact h _ (hrefl t _) (hinv ms)

end Runs

end Service

namespace Contract

variable {τ κ σ ℓ : Type} [DecidableEq τ] {C : Contract τ σ} (S : Service τ κ σ ℓ)
  (Idle : τ → ℓ → σ → Prop)

/-- Whatever is not a step of the thread is something the thread relies on. -/
theorem rely_run
    (hcall : ∀ t k l s, C.inv s → Idle t l s → S.allowed t k l s = true →
      C.wp t (S.code t k l) (Idle t) s)
    (c : Config τ σ ℓ) (hinv : C.inv c.shared)
    (hthread : ∀ t, C.wp t (c.thread t) (Idle t) c.shared) (ms : List (Move τ κ)) (m : Move τ κ)
    {t : τ} (hm : m ≠ .step t) :
    C.rely t (S.run c ms).shared (S.run c (ms ++ [m])).shared := by
  obtain ⟨hi, hwp⟩ := run_sound S Idle hcall c hinv hthread ms
  rw [Service.run_append_singleton]
  generalize S.run c ms = d at hi hwp
  rcases m with ⟨u, k⟩ | u
  · rcases hu : d.thread u with l | ⟨update, next⟩
    · by_cases hall : S.allowed u k l d.shared = true
      · rw [S.move_call k hu hall]
        exact C.rely_refl t _
      · rw [S.move_call_refused k hu hall]
        exact C.rely_refl t _
    · rw [S.move_call_busy k hu]
      exact C.rely_refl t _
  · rcases hu : d.thread u with l | ⟨update, next⟩
    · rw [S.move_step_idle hu]
      exact C.rely_refl t _
    · have hstep := hwp u
      rw [hu] at hstep
      rw [S.move_step hu]
      refine (hstep _ (C.rely_refl u _) hi).1.2 t ?_
      rintro rfl
      exact hm rfl

end Contract

end Concurrency
