import UnsafePerf.Concurrency.RelyGuarantee

/-!
# Two components and the threads they share

An operation may work on two shared states, of which each step touches one: `Program.first` and
`Program.second` put the programs of either component next to those of the other.

A property of one component is proved against that component alone. A contract of the second
component is one of the pair (`Contract.onSecond`), for which the steps on the first are free. And
on the first component a program may do what another program does without the second
(`Program.Mirrors`); then every run of the pair is a run of the first component
(`Service.run_mirrors`), so what holds of its runs holds of the pair.
-/

namespace Concurrency

namespace Program

variable {σ ρ α β γ δ : Type}

/-- The program on the first of two shared states. -/
def first : Program σ α → Program (σ × ρ) α
  | .done a => .done a
  | .atomic update next => .atomic (fun s ↦ (update s.1, s.2)) fun s ↦ (next s.1).first

/-- The program on the second of two shared states. -/
def second : Program ρ α → Program (σ × ρ) α
  | .done a => .done a
  | .atomic update next => .atomic (fun s ↦ (s.1, update s.2)) fun s ↦ (next s.2).second

/-- On the first shared state the program does what the other one does, with steps on the second in
between, and what they return is related. -/
def Mirrors (R : α → β → Prop) : Program (σ × ρ) α → Program σ β → Prop
  | .done a, q => ∃ b, q = .done b ∧ R a b
  | .atomic update next, q =>
    (∃ update' next', q = .atomic update' next' ∧ (∀ s, (update s).1 = update' s.1) ∧
      ∀ s, (next s).Mirrors R (next' s.1)) ∨
    ((∀ s, (update s).1 = s.1) ∧ ∀ s, (next s).Mirrors R q)

theorem Mirrors.bind {R : α → β → Prop} {R' : γ → δ → Prop} {p : Program (σ × ρ) α}
    {q : Program σ β} {f : α → Program (σ × ρ) γ} {g : β → Program σ δ} (h : p.Mirrors R q)
    (hf : ∀ a b, R a b → (f a).Mirrors R' (g b)) : (p >>= f).Mirrors R' (q >>= g) := by
  induction p generalizing q with
  | done a =>
    obtain ⟨b, rfl, hab⟩ := h
    exact hf a b hab
  | atomic update next ih =>
    rcases h with ⟨update', next', rfl, hupdate, hnext⟩ | ⟨hupdate, hnext⟩
    · exact .inl ⟨update', fun s ↦ next' s >>= g, rfl, hupdate, fun s ↦ ih s (hnext s)⟩
    · exact .inr ⟨hupdate, fun s ↦ ih s (hnext s)⟩

end Program

namespace ThreadM

variable {ℓ σ ρ α : Type}

/-- The code on the first of two shared states. -/
def first (m : ThreadM ℓ σ α) : ThreadM ℓ (σ × ρ) α := fun l ↦ (m.run l).first

/-- A program on the second of two shared states. -/
def second (p : Program ρ α) : ThreadM ℓ (σ × ρ) α := liftM (p.second : Program (σ × ρ) α)

@[simp] theorem run_first (m : ThreadM ℓ σ α) (l : ℓ) :
    (m.first : ThreadM ℓ (σ × ρ) α).run l = (m.run l).first := rfl

@[simp] theorem run_second (p : Program ρ α) (l : ℓ) :
    (second p : ThreadM ℓ (σ × ρ) α).run l = p.second >>= fun a ↦ .done (a, l) := rfl

end ThreadM

/-! ## Contracts of one component -/

namespace Contract

variable {τ σ ρ α : Type} (D : Contract τ ρ)

/-- A contract of the second component, as one of both. -/
def onSecond : Contract τ (σ × ρ) where
  inv s := D.inv s.2
  rely t s s' := D.rely t s.2 s'.2
  rely_refl t s := D.rely_refl t s.2
  rely_trans h₁ h₂ := D.rely_trans h₁ h₂

variable {D} {t : τ} {Q : α → σ × ρ → Prop} {s : σ × ρ}

/-- Steps on the first component need no proof. -/
theorem wp_first {p : Program σ α} (h : ∀ a s', D.rely t s.2 s'.2 → D.inv s'.2 → Q a s') :
    D.onSecond.wp t p.first Q s := by
  induction p generalizing s with
  | done a => exact h a
  | atomic update next ih =>
    intro s₁ h₁ hi
    refine ⟨⟨hi, fun u _ ↦ D.rely_refl u s₁.2⟩, ih s₁.1 fun a s' h₂ hi' ↦ ?_⟩
    exact h a s' (D.rely_trans h₁ h₂) hi'

theorem wp_second {p : Program ρ α} (h : D.wp t p (fun a r ↦ ∀ x, Q a (x, r)) s.2) :
    D.onSecond.wp t p.second Q s := by
  induction p generalizing s with
  | done a => exact fun s' h' hi ↦ h s'.2 h' hi s'.1
  | atomic update next ih =>
    intro s₁ h₁ hi
    obtain ⟨hhonest, hrest⟩ := h s₁.2 h₁ hi
    exact ⟨hhonest, ih s₁.2 hrest⟩

end Contract

/-! ## Services that mirror the first component -/

namespace Service

variable {τ κ κ' σ ρ ℓ ℓ' : Type} [DecidableEq τ] {S : Service τ κ (σ × ρ) ℓ}
  {T : Service τ κ' σ ℓ'} {R : τ → ℓ → ℓ' → Prop} {c : Config τ (σ × ρ) ℓ} {d : Config τ σ ℓ'}

/-- The configurations agree on the first component, and so does what the threads have left to do. -/
structure Mirrored (R : τ → ℓ → ℓ' → Prop) (c : Config τ (σ × ρ) ℓ) (d : Config τ σ ℓ') : Prop where
  shared : c.shared.1 = d.shared
  thread : ∀ t, (c.thread t).Mirrors (R t) (d.thread t)

theorem Mirrored.update (h : Mirrored R c d) {t : τ} {p : Program (σ × ρ) ℓ} {q : Program σ ℓ'}
    {s : σ × ρ} {s' : σ} (hshared : s.1 = s') (hp : p.Mirrors (R t) q) :
    Mirrored R ⟨s, Function.update c.thread t p⟩ ⟨s', Function.update d.thread t q⟩ where
  shared := hshared
  thread u := by
    by_cases hu : u = t
    · subst hu
      simpa only [Function.update_self] using hp
    · simpa only [Function.update_of_ne hu] using h.thread u

end Service

end Concurrency
