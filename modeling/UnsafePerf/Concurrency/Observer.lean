import UnsafePerf.Concurrency.RelyGuarantee

/-!
# What one thread sees of a run

Seen from one of its threads, a run of a service is a run of that thread's program in an environment,
which takes the steps of all the others (`Service.runs_of_run`). So a question about a call in the
middle of any interleaving becomes one about a single program, whose environment is known by a
relation that every step of the others keeps.

The relation is best taken reflexive and transitive, such as "no counter decreases". Then nothing but
the relation is left between two steps of the thread, and a program that only looks (`ReadOnly`) adds
nothing to it.

`Program.Steps` and `ThreadM.Steps` say that every step of a program keeps a relation, as long as it
is acceptable; they follow the text of the code.
-/

namespace Concurrency

namespace Program

variable {σ α β : Type} {E : σ → σ → Prop} {s s' : σ}

/-! ## Runs of composed programs -/

theorem Runs.of_bind {p : Program σ α} {f : α → Program σ β} {b : β}
    (h : (p >>= f).Runs E s b s') :
    ∃ a s₁, p.Runs E s a s₁ ∧ (f a).Runs E s₁ b s' := by
  generalize hq : p >>= f = q at h
  induction h generalizing p with
  | done b s =>
    rcases p with a | ⟨u, k⟩
    · have hf : f a = .done b := hq
      exact ⟨a, s, .done a s, by rw [hf]; exact .done b s⟩
    · exact absurd hq (by simp)
  | env hE _ ih =>
    obtain ⟨a, s₁, hp, hf⟩ := ih hq
    exact ⟨a, s₁, .env hE hp, hf⟩
  | @atomic u k s s' b h ih =>
    rcases p with a | ⟨u', k'⟩
    · have hf : f a = .atomic u k := hq
      exact ⟨a, s, .done a s, by rw [hf]; exact .atomic h⟩
    · rw [atomic_bind, Program.atomic.injEq] at hq
      obtain ⟨rfl, hk⟩ := hq
      obtain ⟨a, s₁, hp, hf⟩ := ih (congrFun hk s)
      exact ⟨a, s₁, .atomic hp, hf⟩

section Preorder

variable (hrefl : ∀ s, E s s) (htrans : ∀ {s₁ s₂ s₃}, E s₁ s₂ → E s₂ s₃ → E s₁ s₃)

include hrefl htrans

theorem Runs.of_done {a b : α} (h : (.done a : Program σ α).Runs E s b s') : b = a ∧ E s s' := by
  generalize hq : (.done a : Program σ α) = q at h
  induction h with
  | done b s => exact ⟨(Program.done.inj hq).symm, hrefl s⟩
  | env hE _ ih => exact ⟨(ih hq).1, htrans hE (ih hq).2⟩
  | atomic => exact absurd hq (by simp)

theorem Runs.of_atomic {u : σ → σ} {k : σ → Program σ α} {a : α}
    (h : (.atomic u k : Program σ α).Runs E s a s') :
    ∃ s₁, E s s₁ ∧ (k s₁).Runs E (u s₁) a s' := by
  generalize hq : (.atomic u k : Program σ α) = q at h
  induction h with
  | done => exact absurd hq (by simp)
  | env hE _ ih =>
    obtain ⟨s₁, h₁, hrest⟩ := ih hq
    exact ⟨s₁, htrans hE h₁, hrest⟩
  | atomic h =>
    obtain ⟨rfl, rfl⟩ := Program.atomic.inj hq
    exact ⟨_, hrefl _, h⟩

/-- What a load returns was there at some moment between. -/
theorem Runs.of_load {f : σ → α} {a : α} (h : (load f).Runs E s a s') :
    ∃ s₁, E s s₁ ∧ E s₁ s' ∧ a = f s₁ := by
  obtain ⟨s₁, h₁, hdone⟩ := h.of_atomic hrefl htrans
  obtain ⟨rfl, h₂⟩ := hdone.of_done hrefl htrans
  exact ⟨s₁, h₁, h₂, rfl⟩

end Preorder

/-! ## Programs that only look -/

/-- No step of the program changes the shared state. -/
def ReadOnly : Program σ α → Prop
  | .done _ => True
  | .atomic update next => (∀ s, update s = s) ∧ ∀ s, (next s).ReadOnly

theorem readOnly_load (f : σ → α) : (load f).ReadOnly := ⟨fun _ ↦ rfl, fun _ ↦ trivial⟩

theorem ReadOnly.bind {p : Program σ α} {f : α → Program σ β} (h : p.ReadOnly)
    (hf : ∀ a, (f a).ReadOnly) : (p >>= f).ReadOnly := by
  induction p with
  | done a => exact hf a
  | atomic u k ih => exact ⟨h.1, fun s ↦ ih s (h.2 s)⟩

/-- A program that only looks adds nothing to what its environment does. -/
theorem Runs.of_readOnly {p : Program σ α} (hp : p.ReadOnly) (hrefl : ∀ s, E s s)
    (htrans : ∀ {s₁ s₂ s₃}, E s₁ s₂ → E s₂ s₃ → E s₁ s₃) {a : α} (h : p.Runs E s a s') : E s s' := by
  induction h with
  | done a s => exact hrefl s
  | env hE _ ih => exact htrans hE (ih hp)
  | @atomic u k s s' a _ ih => exact hp.1 s ▸ ih (hp.2 s)

/-! ## Programs whose steps keep a relation -/

/-- As long as they are acceptable, the steps of the program keep the relation. -/
def Steps (ok R : σ → σ → Prop) (p : Program σ α) : Prop := p.Guarded ok R fun _ ↦ True

variable {ok R : σ → σ → Prop}

theorem steps_done (a : α) : (.done a : Program σ α).Steps ok R := trivial

theorem steps_rmw {f : σ → α × σ} (h : ∀ s, ok s (f s).2 → R s (f s).2) : (rmw f).Steps ok R :=
  fun s hok ↦ ⟨h s hok, trivial⟩

theorem steps_load (hrefl : ∀ s, R s s) (f : σ → α) : (load f).Steps ok R :=
  fun s _ ↦ ⟨hrefl s, trivial⟩

theorem Steps.bind {p : Program σ α} {f : α → Program σ β} (h : p.Steps ok R)
    (hf : ∀ a, (f a).Steps ok R) : (p >>= f).Steps ok R :=
  Guarded.bind h fun a _ ↦ hf a

theorem Steps.mono {R' : σ → σ → Prop} {p : Program σ α} (h : p.Steps ok R)
    (hR : ∀ s s', R s s' → R' s s') : p.Steps ok R' := by
  induction p with
  | done a => trivial
  | atomic u k ih => exact fun s hok ↦ ⟨hR _ _ (h s hok).1, ih s (h s hok).2⟩

theorem ReadOnly.steps {p : Program σ α} (h : p.ReadOnly) (hrefl : ∀ s, R s s) :
    p.Steps ok R := by
  induction p with
  | done a => trivial
  | atomic u k ih => exact fun s _ ↦ ⟨(h.1 s).symm ▸ hrefl s, ih s (h.2 s)⟩

end Program

namespace ThreadM

variable {ℓ σ α β : Type} {ok R : σ → σ → Prop}

/-- As long as they are acceptable, the steps of the code keep the relation, whatever the locals. -/
def Steps (ok R : σ → σ → Prop) (m : ThreadM ℓ σ α) : Prop := ∀ l, (m.run l).Steps ok R

theorem steps_pure (a : α) : (pure a : ThreadM ℓ σ α).Steps ok R := fun _ ↦ trivial

theorem steps_get : (get : ThreadM ℓ σ ℓ).Steps ok R := fun _ ↦ trivial

theorem steps_set (l : ℓ) : (set l : ThreadM ℓ σ PUnit).Steps ok R := fun _ ↦ trivial

theorem steps_modify (f : ℓ → ℓ) : (modify f : ThreadM ℓ σ PUnit).Steps ok R := fun _ ↦ trivial

theorem Steps.bind {m : ThreadM ℓ σ α} {f : α → ThreadM ℓ σ β} (h : m.Steps ok R)
    (hf : ∀ a, (f a).Steps ok R) : (m >>= f).Steps ok R :=
  fun l ↦ Program.Steps.bind (h l) fun r ↦ hf r.1 r.2

theorem steps_lift {p : Program σ α} (h : p.Steps ok R) : (liftM p : ThreadM ℓ σ α).Steps ok R :=
  fun _ ↦ Program.Steps.bind h fun _ ↦ trivial

end ThreadM

namespace Contract

variable {τ σ α : Type} {C : Contract τ σ} {t : τ} {Q : α → σ → Prop} {s : σ}

/-- A program that only looks may always run. -/
theorem wp_readOnly {p : Program σ α} (h : p.ReadOnly)
    (hQ : ∀ a s', C.rely t s s' → C.inv s' → Q a s') : C.wp t p Q s := by
  induction p generalizing s with
  | done a => exact hQ a
  | atomic u k ih =>
    intro s₁ h₁ hi
    rw [h.1 s₁]
    refine ⟨⟨hi, fun u _ ↦ C.rely_refl u s₁⟩, ih s₁ (h.2 s₁) fun a s' h₂ hi' ↦ ?_⟩
    exact hQ a s' (C.rely_trans h₁ h₂) hi'

end Contract

/-! ## Runs of a service -/

namespace Service

variable {τ κ σ ℓ : Type} [DecidableEq τ] (S : Service τ κ σ ℓ) {E : σ → σ → Prop}

/-- As long as the moves of a run are acceptable, each of them keeps the relation. -/
theorem run_steps {ok R : σ → σ → Prop} (hrefl : ∀ s, R s s)
    (hcode : ∀ t k l, (S.code t k l).Steps ok R) {c : Config τ σ ℓ}
    (hstart : ∀ t, (c.thread t).Steps ok R) {ms : List (Move τ κ)}
    (hok : ∀ pre, pre <+: ms → ∀ m, pre ++ [m] <+: ms →
      ok (S.run c pre).shared (S.run c (pre ++ [m])).shared)
    {pre : List (Move τ κ)} {m : Move τ κ} (hpre : pre ++ [m] <+: ms) :
    R (S.run c pre).shared (S.run c (pre ++ [m])).shared := by
  have hbefore : pre <+: ms := (List.prefix_append _ _).trans hpre
  rw [run_append_singleton]
  rcases m with ⟨t, k⟩ | t
  · rcases ht : (S.run c pre).thread t with l | ⟨update, next⟩
    · by_cases hall : S.allowed t k l (S.run c pre).shared = true
      · rw [S.move_call k ht hall]
        exact hrefl _
      · rw [S.move_call_refused k ht hall]
        exact hrefl _
    · rw [S.move_call_busy k ht]
      exact hrefl _
  · have hthread : ((S.run c pre).thread t).Steps ok R :=
      S.run_guarded (hstart t) (fun _ k l _ _ _ _ ↦ hcode t k l) fun pre' hpre' ↦
        hok pre' ((List.prefix_append _ _).trans (hpre'.trans hbefore)) _ (hpre'.trans hbefore)
    refine S.step_guarded hthread ?_ hrefl
    have hstep := hok pre hbefore _ hpre
    rwa [run_append_singleton] at hstep

/-- **A run, seen from one of its threads,** which makes no new call in it, is a run of the thread's
program in an environment that takes the steps of the others. -/
theorem runs_of_run {c : Config τ σ ℓ} {t : τ} {ms : List (Move τ κ)}
    (hcall : ∀ k, .call t k ∉ ms)
    (henv : ∀ pre m, pre ++ [m] <+: ms → E (S.run c pre).shared (S.run c (pre ++ [m])).shared)
    {l : ℓ} {s' : σ} (h : ((S.run c ms).thread t).Runs E (S.run c ms).shared l s') :
    (c.thread t).Runs E c.shared l s' := by
  induction ms using List.reverseRecOn with
  | nil => exact h
  | append_singleton ms m ih =>
    refine ih (fun k hk ↦ hcall k (List.mem_append_left _ hk))
      (fun pre m' hpre ↦ henv pre m' (hpre.trans (List.prefix_append _ _))) ?_
    have hE := henv ms m List.prefix_rfl
    rw [run_append_singleton] at h hE
    generalize S.run c ms = d at h hE
    -- another thread's move is a step of the environment
    have hother : (S.move d m).thread t = d.thread t → (d.thread t).Runs E d.shared l s' := by
      intro hsame
      rw [hsame] at h
      exact .env hE h
    rcases m with ⟨u, k⟩ | u
    · have hut : t ≠ u := by
        rintro rfl
        exact hcall k (List.mem_append_right _ (List.mem_singleton_self _))
      refine hother ?_
      rcases hu : d.thread u with l' | ⟨update, next⟩
      · by_cases hall : S.allowed u k l' d.shared = true
        · rw [S.move_call k hu hall]
          exact Function.update_of_ne hut ..
        · rw [S.move_call_refused k hu hall]
      · rw [S.move_call_busy k hu]
    · rcases hu : d.thread u with l' | ⟨update, next⟩
      · exact hother (by rw [S.move_step_idle hu])
      · by_cases hut : t = u
        · subst hut
          rw [S.move_step hu] at h
          rw [hu]
          refine .atomic ?_
          simpa only [Function.update_self] using h
        · refine hother ?_
          rw [S.move_step hu]
          exact Function.update_of_ne hut ..

end Service

end Concurrency
