import UnsafePerf.Concurrency.Observer

/-!
# Programs in a run that is known to keep a relation

Often one fact about the steps of a run is the ground for another: once it is known that no step takes
anything back, a thread that has seen something may count on it later. `Program.Assuming R G Q p s`
says that a program started in `s` takes steps in `G` and ends with `Q`, assuming that every step of
the run, its own included, is in `R`. The state it is started in may be remembered: what is known of
it and survives `R` is known after every wait.

`Service.run_assuming` gives `G` for every step of a run whose steps are in `R`.
-/

namespace Concurrency

namespace Program

variable {σ α β : Type} (R G : σ → σ → Prop)

/-- Assuming that all steps are in `R`, those of the program are in `G`, and it ends with `Q`. -/
def Assuming (Q : α → σ → Prop) : Program σ α → σ → Prop
  | .done a, s => ∀ s', R s s' → Q a s'
  | .atomic update next, s => ∀ s', R s s' → R s' (update s') →
    G s' (update s') ∧ (next s').Assuming Q (update s')

variable {R G} {P : α → σ → Prop} {Q : β → σ → Prop} {s s' : σ}

theorem Assuming.mono {P' : α → σ → Prop} {p : Program σ α} (h : p.Assuming R G P s)
    (hP : ∀ a s', P a s' → P' a s') : p.Assuming R G P' s := by
  induction p generalizing s with
  | done a => exact fun s' hR ↦ hP a s' (h s' hR)
  | atomic u k ih => exact fun s' hR hown ↦ ⟨(h s' hR hown).1, ih s' (h s' hR hown).2⟩

/-- A program whose steps keep a relation that makes those of the run be in `G`. -/
theorem Steps.assuming {T : σ → σ → Prop} {p : Program σ α} (h : p.Steps (fun _ _ ↦ True) T)
    (hG : ∀ s s', R s s' → T s s' → G s s') : p.Assuming R G (fun _ _ ↦ True) s := by
  induction p generalizing s with
  | done a => exact fun _ _ ↦ trivial
  | atomic u k ih =>
    exact fun s' _ hown ↦ ⟨hG s' (u s') hown (h s' trivial).1, ih s' (h s' trivial).2⟩

/-- What is known of a program survives `R`. -/
theorem Assuming.of_rel (htrans : ∀ {s₁ s₂ s₃}, R s₁ s₂ → R s₂ s₃ → R s₁ s₃) {p : Program σ α}
    (h : p.Assuming R G P s) (hR : R s s') : p.Assuming R G P s' := by
  rcases p with a | ⟨u, k⟩
  · exact fun s₁ h₁ ↦ h s₁ (htrans hR h₁)
  · exact fun s₁ h₁ ↦ h s₁ (htrans hR h₁)

/-- What is known may be established after a wait. -/
theorem assuming_intro (hrefl : ∀ s, R s s) {p : Program σ α}
    (h : ∀ s', R s s' → p.Assuming R G P s') : p.Assuming R G P s := by
  rcases p with a | ⟨u, k⟩
  · exact fun s₁ h₁ ↦ h s₁ h₁ s₁ (hrefl s₁)
  · exact fun s₁ h₁ ↦ h s₁ h₁ s₁ (hrefl s₁)

/-- The program ends in a state that the run may reach from its own start. -/
theorem Assuming.rel (hrefl : ∀ s, R s s) (htrans : ∀ {s₁ s₂ s₃}, R s₁ s₂ → R s₂ s₃ → R s₁ s₃)
    {p : Program σ α} (h : p.Assuming R G P s) :
    p.Assuming R G (fun a s' ↦ R s s' ∧ P a s') s := by
  have hfrom : ∀ s₀ s, R s₀ s → p.Assuming R G P s →
      p.Assuming R G (fun a s' ↦ R s₀ s' ∧ P a s') s := by
    intro s₀
    clear h
    induction p with
    | done a => exact fun s hs h s' hR ↦ ⟨htrans hs hR, h s' hR⟩
    | atomic u k ih =>
      intro s hs h s' hR hown
      obtain ⟨hstep, hrest⟩ := h s' hR hown
      exact ⟨hstep, ih s' (u s') (htrans hs (htrans hR hown)) hrest⟩
  exact hfrom s s (hrefl s) h

theorem Assuming.bind (hrefl : ∀ s, R s s) (htrans : ∀ {s₁ s₂ s₃}, R s₁ s₂ → R s₂ s₃ → R s₁ s₃)
    {p : Program σ α} {f : α → Program σ β} (h : p.Assuming R G P s)
    (hf : ∀ a s', R s s' → P a s' → (f a).Assuming R G Q s') : (p >>= f).Assuming R G Q s := by
  have hseq : ∀ {P' : α → σ → Prop} (s₀ : σ), p.Assuming R G P' s₀ →
      (∀ a s', P' a s' → (f a).Assuming R G Q s') → (p >>= f).Assuming R G Q s₀ := by
    intro P'
    clear h hf
    induction p with
    | done a => exact fun s₀ h hf ↦ assuming_intro hrefl fun s' hR ↦ hf a s' (h s' hR)
    | atomic u k ih =>
      exact fun s₀ h hf s' hR hown ↦ ⟨(h s' hR hown).1, ih s' (u s') (h s' hR hown).2 hf⟩
  exact hseq s (h.rel hrefl htrans) fun a s' hP ↦ hf a s' hP.1 hP.2

/-- What a load returns was there after a wait, and there may be another wait. -/
theorem assuming_load (hG : ∀ s, G s s) {f : σ → α}
    (h : ∀ s₁ s₂, R s s₁ → R s₁ s₂ → P (f s₁) s₂) : (load f).Assuming R G P s :=
  fun s₁ h₁ _ ↦ ⟨hG s₁, fun s₂ h₂ ↦ h s₁ s₂ h₁ h₂⟩

theorem assuming_rmw {f : σ → α × σ}
    (h : ∀ s₁, R s s₁ → R s₁ (f s₁).2 → G s₁ (f s₁).2 ∧ ∀ s₂, R (f s₁).2 s₂ → P (f s₁).1 s₂) :
    (rmw f).Assuming R G P s := h

end Program

namespace Service

variable {τ κ σ ℓ : Type} [DecidableEq τ] (S : Service τ κ σ ℓ) {R G : σ → σ → Prop}

/-- If all steps of a run are in `R`, and under this assumption those of the calls are in `G`, then
all steps of the run are in `G`. -/
theorem run_assuming (htrans : ∀ {s₁ s₂ s₃}, R s₁ s₂ → R s₂ s₃ → R s₁ s₃) (hrefl : ∀ s, R s s)
    (hG : ∀ s, G s s) {c : Config τ σ ℓ}
    (hcode : ∀ t k l s, R c.shared s → (S.code t k l).Assuming R G (fun _ _ ↦ True) s)
    (hstart : ∀ t, (c.thread t).Assuming R G (fun _ _ ↦ True) c.shared) {ms : List (Move τ κ)}
    (hR : ∀ pre m, pre ++ [m] <+: ms →
      R (S.run c pre).shared (S.run c (pre ++ [m])).shared)
    {pre : List (Move τ κ)} {m : Move τ κ} (hpre : pre ++ [m] <+: ms) :
    G (S.run c pre).shared (S.run c (pre ++ [m])).shared := by
  -- every thread's program is still good for the state that has been reached
  have hthreads : ∀ pre', pre' <+: ms → R c.shared (S.run c pre').shared ∧
      ∀ t, ((S.run c pre').thread t).Assuming R G (fun _ _ ↦ True) (S.run c pre').shared := by
    intro pre' hpre'
    induction pre' using List.reverseRecOn with
    | nil => exact ⟨hrefl _, hstart⟩
    | append_singleton done m ih =>
      obtain ⟨hbegin, hdone⟩ := ih ((List.prefix_append _ _).trans hpre')
      have hstep := hR done m hpre'
      refine ⟨htrans hbegin hstep, fun u ↦ ?_⟩
      rw [run_append_singleton] at hstep ⊢
      generalize S.run c done = d at hbegin hdone hstep
      have hkept : (d.thread u).Assuming R G (fun _ _ ↦ True) (S.move d m).shared :=
        Program.Assuming.of_rel (R := R) htrans (hdone u) hstep
      rcases m with ⟨t, k⟩ | t
      · by_cases hidle : ∃ l, d.thread t = .done l ∧ S.allowed t k l d.shared = true
        · obtain ⟨l, ht, hall⟩ := hidle
          rw [S.move_call k ht hall] at hkept ⊢
          by_cases hu : u = t
          · subst hu
            simpa only [Function.update_self] using hcode u k l d.shared hbegin
          · simpa only [Function.update_of_ne hu] using hkept
        · rcases ht : d.thread t with l | ⟨update, next⟩
          · rw [S.move_call_refused k ht fun hall ↦ hidle ⟨l, ht, hall⟩] at hkept ⊢
            exact hkept
          · rw [S.move_call_busy k ht] at hkept ⊢
            exact hkept
      · rcases ht : d.thread t with l | ⟨update, next⟩
        · rw [S.move_step_idle ht] at hkept ⊢
          exact hkept
        · have hown := hdone t
          rw [ht] at hown
          rw [S.move_step ht] at hkept hstep ⊢
          by_cases hu : u = t
          · subst hu
            simpa only [Function.update_self] using (hown d.shared (hrefl _) hstep).2
          · simpa only [Function.update_of_ne hu] using hkept
  obtain ⟨-, hdone⟩ := hthreads pre ((List.prefix_append _ _).trans hpre)
  have hstep := hR pre m hpre
  rw [run_append_singleton] at hstep ⊢
  generalize S.run c pre = d at hdone hstep
  rcases m with ⟨t, k⟩ | t
  · rcases ht : d.thread t with l | ⟨update, next⟩
    · by_cases hall : S.allowed t k l d.shared = true
      · rw [S.move_call k ht hall]
        exact hG _
      · rw [S.move_call_refused k ht hall]
        exact hG _
    · rw [S.move_call_busy k ht]
      exact hG _
  · rcases ht : d.thread t with l | ⟨update, next⟩
    · rw [S.move_step_idle ht]
      exact hG _
    · have hown := hdone t
      rw [ht] at hown
      rw [S.move_step ht] at hstep ⊢
      exact (hown d.shared (hrefl _) hstep).1

end Service

end Concurrency
