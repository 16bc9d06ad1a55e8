import UnsafePerf.Concurrency.Program

/-!
# Rely–guarantee reasoning

A `Contract` fixes an invariant of the shared state and, for each thread, the relation it relies
on: how the shared state may change between two of its own steps. What a thread guarantees is not
a separate parameter. A step of `t` is *honest* when it keeps the invariant and stays inside what
every other thread relies on.

`Contract.wp t p Q s` says that thread `t` may run `p` from `s`: every step of `p` is honest
wherever the others have moved the state, and `Q` holds of the result when `p` has returned and
for as long as the thread rests there. It is a fold over the program, so a proof follows the text
of the program with one rule for each construct.

`Contract.run_sound` takes `wp` to runs: to all threads of a service under every list of moves.
-/

namespace Concurrency

/-- An invariant of the shared state and what each thread relies on. -/
structure Contract (τ σ : Type) where
  /-- The invariant. -/
  inv : σ → Prop
  /-- What a thread relies on between its own steps. -/
  rely : τ → σ → σ → Prop
  /-- Nothing happening is always acceptable. -/
  rely_refl : ∀ t s, rely t s s
  /-- The rely covers any number of steps of the others. -/
  rely_trans : ∀ {t s₁ s₂ s₃}, rely t s₁ s₂ → rely t s₂ s₃ → rely t s₁ s₃

namespace Contract

variable {τ σ α β : Type} (C : Contract τ σ)

/-- The step of `t` from `s` to `s'` keeps the invariant and what every other thread relies on. -/
def Honest (t : τ) (s s' : σ) : Prop := C.inv s' ∧ ∀ u, u ≠ t → C.rely u s s'

/-- Thread `t` may run the program from this state, and ends with `Q`. -/
def wp (t : τ) : Program σ α → (α → σ → Prop) → σ → Prop
  | .done a, Q, s => ∀ s', C.rely t s s' → C.inv s' → Q a s'
  | .atomic update next, Q, s => ∀ s', C.rely t s s' → C.inv s' →
      C.Honest t s' (update s') ∧ wp t (next s') Q (update s')

variable {C} {t : τ} {Q Q' : α → σ → Prop} {s s' : σ}

theorem wp_done {a : α} (h : ∀ s', C.rely t s s' → C.inv s' → Q a s') :
    C.wp t (.done a) Q s := h

/-- The precondition of a program survives what the thread relies on. -/
theorem wp_rely {p : Program σ α} (h : C.wp t p Q s) (hr : C.rely t s s') : C.wp t p Q s' := by
  cases p with
  | done a => exact fun s₁ h₁ ↦ h s₁ (C.rely_trans hr h₁)
  | atomic u k => exact fun s₁ h₁ ↦ h s₁ (C.rely_trans hr h₁)

/-- A precondition may be established after the others have moved. -/
theorem wp_intro {p : Program σ α} (h : ∀ s', C.rely t s s' → C.inv s' → C.wp t p Q s') :
    C.wp t p Q s := by
  cases p with
  | done a => exact fun s₁ h₁ hi ↦ h s₁ h₁ hi s₁ (C.rely_refl t s₁) hi
  | atomic u k => exact fun s₁ h₁ hi ↦ h s₁ h₁ hi s₁ (C.rely_refl t s₁) hi

theorem wp_mono {p : Program σ α} (hQ : ∀ a s, C.inv s → Q a s → Q' a s) (h : C.wp t p Q s) :
    C.wp t p Q' s := by
  induction p generalizing s with
  | done a => exact fun s₁ h₁ hi ↦ hQ a s₁ hi (h s₁ h₁ hi)
  | atomic u k ih => exact fun s₁ h₁ hi ↦ ⟨(h s₁ h₁ hi).1, ih s₁ (h s₁ h₁ hi).2⟩

theorem wp_bind {p : Program σ α} {f : α → Program σ β} {R : β → σ → Prop}
    (h : C.wp t p (fun a s ↦ C.wp t (f a) R s) s) : C.wp t (p >>= f) R s := by
  induction p generalizing s with
  | done a => exact wp_intro h
  | atomic u k ih => exact fun s₁ h₁ hi ↦ ⟨(h s₁ h₁ hi).1, ih s₁ (h s₁ h₁ hi).2⟩

/-- Sequencing through the postcondition of the first program. -/
theorem wp_seq {p : Program σ α} {f : α → Program σ β} {R : β → σ → Prop}
    (hp : C.wp t p Q s) (hf : ∀ a s, C.inv s → Q a s → C.wp t (f a) R s) :
    C.wp t (p >>= f) R s :=
  wp_bind (wp_mono hf hp)

theorem wp_map {p : Program σ α} {f : α → β} {R : β → σ → Prop}
    (h : C.wp t p (fun a ↦ R (f a)) s) : C.wp t (f <$> p) R s := by
  induction p generalizing s with
  | done a => exact h
  | atomic u k ih => exact fun s₁ h₁ hi ↦ ⟨(h s₁ h₁ hi).1, ih s₁ (h s₁ h₁ hi).2⟩

/-- What the program returns, whatever it reads, is known in the end. -/
theorem wp_returns {P : α → Prop} {p : Program σ α} (hp : p.Returns P) (h : C.wp t p Q s) :
    C.wp t p (fun a s ↦ P a ∧ Q a s) s := by
  induction p generalizing s with
  | done a => exact fun s₁ h₁ hi ↦ ⟨hp, h s₁ h₁ hi⟩
  | atomic u k ih => exact fun s₁ h₁ hi ↦ ⟨(h s₁ h₁ hi).1, ih s₁ (hp s₁) (h s₁ h₁ hi).2⟩

/-- A read-modify-write needs an honest step; its postcondition is checked at once and has to
survive what the thread relies on. -/
theorem wp_rmw {f : σ → α × σ}
    (h : ∀ s', C.rely t s s' → C.inv s' → C.Honest t s' (f s').2 ∧
      ∀ s'', C.rely t (f s').2 s'' → C.inv s'' → Q (f s').1 s'') :
    C.wp t (.rmw f) Q s := h

theorem wp_load {f : σ → α}
    (h : ∀ s', C.rely t s s' → C.inv s' → ∀ s'', C.rely t s' s'' → C.inv s'' → Q (f s') s'') :
    C.wp t (.load f) Q s := fun s' hr hi ↦ ⟨⟨hi, fun u _ ↦ C.rely_refl u s'⟩, h s' hr hi⟩

theorem wp_store {f : σ → σ} {R : Unit → σ → Prop}
    (h : ∀ s', C.rely t s s' → C.inv s' → C.Honest t s' (f s') ∧
      ∀ s'', C.rely t (f s') s'' → C.inv s'' → R () s'') :
    C.wp t (.store f) R s := h

/-! ## Soundness -/

section Services

variable {κ ℓ : Type} [DecidableEq τ] (S : Service τ κ σ ℓ) (Idle : τ → ℓ → σ → Prop)

/-- One move keeps the invariant and every thread's precondition. -/
theorem move_sound
    (hcall : ∀ t k l s, C.inv s → Idle t l s → S.allowed t k l s = true →
      C.wp t (S.code t k l) (Idle t) s)
    (c : Config τ σ ℓ) (hinv : C.inv c.shared)
    (hthread : ∀ t, C.wp t (c.thread t) (Idle t) c.shared) (m : Move τ κ) :
    C.inv (S.move c m).shared ∧
      ∀ t, C.wp t ((S.move c m).thread t) (Idle t) (S.move c m).shared := by
  cases m with
  | call t k =>
    cases ht : c.thread t with
    | atomic u next => rw [S.move_call_busy k ht]; exact ⟨hinv, hthread⟩
    | done l =>
      by_cases hall : S.allowed t k l c.shared = true
      · rw [S.move_call k ht hall]
        refine ⟨hinv, fun v ↦ ?_⟩
        by_cases hv : v = t
        · subst hv
          have hidle := hthread v
          rw [ht] at hidle
          simp only [Function.update_self]
          exact hcall v k l _ hinv (hidle _ (C.rely_refl v _) hinv) hall
        · simp only [Function.update_of_ne hv]
          exact hthread v
      · rw [S.move_call_refused k ht hall]
        exact ⟨hinv, hthread⟩
  | step t =>
    cases ht : c.thread t with
    | done l => rw [S.move_step_idle ht]; exact ⟨hinv, hthread⟩
    | atomic u next =>
      have hstep := hthread t
      rw [ht] at hstep
      obtain ⟨hhonest, hrest⟩ := hstep _ (C.rely_refl t _) hinv
      rw [S.move_step ht]
      refine ⟨hhonest.1, fun v ↦ ?_⟩
      by_cases hv : v = t
      · subst hv
        simp only [Function.update_self]
        exact hrest
      · simp only [Function.update_of_ne hv]
        exact wp_rely (hthread v) (hhonest.2 v hv)

/-- **Soundness of a service.** If every operation a thread is allowed to call may run from the
thread's idle condition, then under every list of moves the invariant holds, and every thread's
rest program may still run to its idle condition. -/
theorem run_sound
    (hcall : ∀ t k l s, C.inv s → Idle t l s → S.allowed t k l s = true →
      C.wp t (S.code t k l) (Idle t) s)
    (c : Config τ σ ℓ) (hinv : C.inv c.shared)
    (hthread : ∀ t, C.wp t (c.thread t) (Idle t) c.shared) (ms : List (Move τ κ)) :
    C.inv (S.run c ms).shared ∧
      ∀ t, C.wp t ((S.run c ms).thread t) (Idle t) (S.run c ms).shared := by
  induction ms using List.reverseRecOn with
  | nil => exact ⟨hinv, hthread⟩
  | append_singleton ms m ih =>
    rw [Service.run_append_singleton]
    exact move_sound S Idle hcall _ ih.1 ih.2 m

/-- The idle condition holds of every thread that is between calls. -/
theorem run_idle
    (hcall : ∀ t k l s, C.inv s → Idle t l s → S.allowed t k l s = true →
      C.wp t (S.code t k l) (Idle t) s)
    (c : Config τ σ ℓ) (hinv : C.inv c.shared)
    (hthread : ∀ t, C.wp t (c.thread t) (Idle t) c.shared) (ms : List (Move τ κ))
    {t : τ} {l : ℓ} (hidle : (S.run c ms).Idle t l) : Idle t l (S.run c ms).shared := by
  obtain ⟨hi, ht⟩ := run_sound S Idle hcall c hinv hthread ms
  have h := ht t
  rw [hidle] at h
  exact h _ (C.rely_refl t _) hi

end Services

end Contract

end Concurrency
