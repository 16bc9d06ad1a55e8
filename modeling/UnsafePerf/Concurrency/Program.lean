import Mathlib.Logic.Function.Basic
import Mathlib.Data.List.Induction

/-!
# Programs of atomic steps

Code that shares memory with other threads is a tree of atomic steps: each step updates the shared
state and chooses the rest of the program from what it read. A program is data, so the same
definition can be run alone (`Program.exec`), run while the environment changes the shared state
between its steps (`Program.Runs`), or put next to other programs in a schedule (`Service.run`).

Whatever the outside world supplies to a program (a clock reading, the address an allocator
returns) is an argument of the program, so a step is deterministic and every schedule can be
evaluated.

## Thread-local state

Code with thread-local variables is written in `ThreadM ℓ σ`, which carries the locals beside the
program. The locals are passed along and never become part of the shared state, so no other thread
can interfere with them.

## Services

A `Service` is a component whose operations are programs and whose clients are threads that call
them in an order nobody controls. A `Move` of the world either lets an idle thread call an
operation it is allowed to call, or lets a busy thread take its next atomic step. Moves that are not
possible change nothing, so a run is a fold over an arbitrary list of moves and a statement about
every list of moves is a statement about every interleaving.
-/

namespace Concurrency

/-! ## Programs -/

/-- A program over the shared state `σ` that returns an `α`. A step applies `update`, and `next`
sees the state before the update. -/
inductive Program (σ α : Type) where
  /-- The program has returned. -/
  | done (a : α)
  /-- One atomic step. -/
  | atomic (update : σ → σ) (next : σ → Program σ α)

namespace Program

variable {σ α β : Type}

/-- Sequencing. -/
def bind : Program σ α → (α → Program σ β) → Program σ β
  | .done a, f => f a
  | .atomic update next, f => .atomic update fun s ↦ (next s).bind f

instance : Monad (Program σ) where
  pure := .done
  bind := bind

/-- An atomic read-modify-write: the answer and the new state are computed from one state. -/
def rmw (f : σ → α × σ) : Program σ α := .atomic (fun s ↦ (f s).2) fun s ↦ .done (f s).1

/-- An atomic load. -/
def load (f : σ → α) : Program σ α := .rmw fun s ↦ (f s, s)

/-- An atomic store. -/
def store (f : σ → σ) : Program σ Unit := .rmw fun s ↦ ((), f s)

@[simp] theorem pure_eq (a : α) : (pure a : Program σ α) = .done a := rfl

@[simp] theorem done_bind (a : α) (f : α → Program σ β) : (.done a >>= f) = f a := rfl

@[simp] theorem atomic_bind (u : σ → σ) (k : σ → Program σ α) (f : α → Program σ β) :
    (.atomic u k >>= f) = .atomic u fun s ↦ k s >>= f := rfl

@[simp] theorem map_done (f : α → β) (a : α) : f <$> (.done a : Program σ α) = .done (f a) := rfl

private theorem map_id_eq (p : Program σ α) : id <$> p = p := by
  induction p with
  | done a => rfl
  | atomic u k ih => exact congrArg (Program.atomic u) (funext ih)

private theorem bind_bind (p : Program σ α) (f : α → Program σ β) {γ : Type}
    (g : β → Program σ γ) : p >>= f >>= g = p >>= fun a ↦ f a >>= g := by
  induction p with
  | done a => rfl
  | atomic u k ih => exact congrArg (Program.atomic u) (funext ih)

instance : LawfulMonad (Program σ) :=
  .mk' _ map_id_eq (fun _ _ ↦ rfl) fun p f g ↦ bind_bind p f g

/-! ### Running alone -/

/-- The program run to its end with nothing else running. -/
def exec : Program σ α → σ → α × σ
  | .done a, s => (a, s)
  | .atomic update next, s => (next s).exec (update s)

@[simp] theorem exec_done (a : α) (s : σ) : (.done a : Program σ α).exec s = (a, s) := rfl

@[simp] theorem exec_rmw (f : σ → α × σ) (s : σ) : (rmw f).exec s = f s := rfl

@[simp] theorem exec_load (f : σ → α) (s : σ) : (load f).exec s = (f s, s) := rfl

@[simp] theorem exec_store (f : σ → σ) (s : σ) : (store f).exec s = ((), f s) := rfl

@[simp] theorem exec_bind (p : Program σ α) (f : α → Program σ β) (s : σ) :
    (p >>= f).exec s = (f (p.exec s).1).exec (p.exec s).2 := by
  induction p generalizing s with
  | done a => rfl
  | atomic u k ih => exact ih s (u s)

@[simp] theorem exec_map (f : α → β) (p : Program σ α) (s : σ) :
    (f <$> p).exec s = (f (p.exec s).1, (p.exec s).2) := exec_bind p (fun a ↦ .done (f a)) s

/-- Run alone from the state, every step of the program keeps `R`. -/
def ExecKeeps (R : σ → σ → Prop) : Program σ α → σ → Prop
  | .done _, _ => True
  | .atomic update next, s => R s (update s) ∧ (next s).ExecKeeps R (update s)

@[simp] theorem execKeeps_done (R : σ → σ → Prop) (a : α) (s : σ) :
    (.done a : Program σ α).ExecKeeps R s := trivial

@[simp] theorem execKeeps_rmw (R : σ → σ → Prop) (f : σ → α × σ) (s : σ) :
    (rmw f).ExecKeeps R s ↔ R s (f s).2 := and_iff_left trivial

@[simp] theorem execKeeps_load (R : σ → σ → Prop) (f : σ → α) (s : σ) :
    (load f).ExecKeeps R s ↔ R s s := and_iff_left trivial

@[simp] theorem execKeeps_store (R : σ → σ → Prop) (f : σ → σ) (s : σ) :
    (store f).ExecKeeps R s ↔ R s (f s) := and_iff_left trivial

@[simp] theorem execKeeps_bind (R : σ → σ → Prop) (p : Program σ α) (f : α → Program σ β) (s : σ) :
    (p >>= f).ExecKeeps R s ↔
      p.ExecKeeps R s ∧ (f (p.exec s).1).ExecKeeps R (p.exec s).2 := by
  induction p generalizing s with
  | done a => exact (and_iff_right trivial).symm
  | atomic u k ih => exact (and_congr_right fun _ ↦ ih s (u s)).trans and_assoc.symm

@[simp] theorem execKeeps_map (R : σ → σ → Prop) (f : α → β) (p : Program σ α) (s : σ) :
    (f <$> p).ExecKeeps R s ↔ p.ExecKeeps R s :=
  (execKeeps_bind R p (fun a ↦ .done (f a)) s).trans (and_iff_left trivial)

/-- What every step keeps, the run keeps. -/
theorem ExecKeeps.exec {R : σ → σ → Prop} (hrefl : ∀ s, R s s)
    (htrans : ∀ s₁ s₂ s₃, R s₁ s₂ → R s₂ s₃ → R s₁ s₃) {p : Program σ α} {s : σ}
    (h : p.ExecKeeps R s) : R s (p.exec s).2 := by
  induction p generalizing s with
  | done a => exact hrefl s
  | atomic u k ih => exact htrans _ _ _ h.1 (ih s h.2)

/-- What the program has returned. -/
def returned : Program σ α → Option α
  | .done a => some a
  | .atomic _ _ => none

theorem returned_eq_some {p : Program σ α} {a : α} : p.returned = some a ↔ p = .done a := by
  cases p <;> simp [returned]

/-- Whatever the program reads, what it returns satisfies `P`. -/
def Returns (P : α → Prop) : Program σ α → Prop
  | .done a => P a
  | .atomic _ next => ∀ s, Returns P (next s)

theorem returns_bind {P : β → Prop} {p : Program σ α} {f : α → Program σ β}
    (h : ∀ a, (f a).Returns P) : (p >>= f).Returns P := by
  induction p with
  | done a => exact h a
  | atomic u k ih => exact fun s ↦ ih s

theorem Returns.mono {P Q : α → Prop} {p : Program σ α} (h : p.Returns P)
    (hPQ : ∀ a, P a → Q a) : p.Returns Q := by
  induction p with
  | done a => exact hPQ a h
  | atomic u k ih => exact fun s ↦ ih s (h s)

theorem Returns.bind {P : α → Prop} {Q : β → Prop} {p : Program σ α} {f : α → Program σ β}
    (h : p.Returns P) (hf : ∀ a, P a → (f a).Returns Q) : (p >>= f).Returns Q := by
  induction p with
  | done a => exact hf a h
  | atomic u k ih => exact fun s ↦ ih s (h s)

/-- A program that can return one value only returns just what holds of this value. -/
theorem Returns.iff_of_eq [Nonempty σ] {P : α → Prop} {p : Program σ α} {a : α}
    (h : p.Returns (· = a)) : p.Returns P ↔ P a := by
  refine ⟨fun hP ↦ ?_, fun ha ↦ h.mono fun b hb ↦ hb ▸ ha⟩
  induction p with
  | done b => exact (show b = a from h) ▸ hP
  | atomic u k ih =>
    obtain ⟨s⟩ := ‹Nonempty σ›
    exact ih s (h s) (hP s)

/-- As long as its own steps are acceptable, each of them keeps `R`, and the program returns with
`Q`. -/
def Guarded (ok R : σ → σ → Prop) (Q : α → Prop) : Program σ α → Prop
  | .done a => Q a
  | .atomic update next => ∀ s, ok s (update s) → R s (update s) ∧ Guarded ok R Q (next s)

theorem Guarded.bind {ok R : σ → σ → Prop} {P : α → Prop} {Q : β → Prop} {p : Program σ α}
    {f : α → Program σ β} (h : p.Guarded ok R P) (hf : ∀ a, P a → (f a).Guarded ok R Q) :
    (p >>= f).Guarded ok R Q := by
  induction p with
  | done a => exact hf a h
  | atomic u k ih => exact fun s hok ↦ ⟨(h s hok).1, ih s (h s hok).2⟩

theorem guarded_load {ok R : σ → σ → Prop} {P : α → Prop} {f : σ → α} (hR : ∀ s, R s s)
    (hP : ∀ s, P (f s)) : (load f).Guarded ok R P := fun s _ ↦ ⟨hR s, hP s⟩

theorem guarded_rmw {ok R : σ → σ → Prop} {P : α → Prop} {f : σ → α × σ}
    (h : ∀ s, ok s (f s).2 → R s (f s).2 ∧ P (f s).1) : (rmw f).Guarded ok R P := h

/-! ### Running in an environment -/

/-- `p.Runs E s a s'`: started in `s`, with steps of the environment `E` before, between and after
its own, the program can return `a` and leave the shared state `s'`. -/
inductive Runs (E : σ → σ → Prop) : Program σ α → σ → α → σ → Prop where
  | done (a : α) (s : σ) : Runs E (.done a) s a s
  | env {p : Program σ α} {s s₁ s' : σ} {a : α} : E s s₁ → Runs E p s₁ a s' → Runs E p s a s'
  | atomic {u : σ → σ} {k : σ → Program σ α} {s s' : σ} {a : α} :
      Runs E (k s) (u s) a s' → Runs E (.atomic u k) s a s'

/-- Running alone is one of the runs, so a program always has a run to its end. -/
theorem runs_exec (E : σ → σ → Prop) (p : Program σ α) (s : σ) :
    p.Runs E s (p.exec s).1 (p.exec s).2 := by
  induction p generalizing s with
  | done a => exact .done a s
  | atomic u k ih => exact .atomic (ih s (u s))

end Program

/-! ## Code with thread-local state -/

/-- Programs over the shared state `σ` with thread-local state `ℓ`. -/
abbrev ThreadM (ℓ σ : Type) := StateT ℓ (Program σ)

namespace ThreadM

variable {ℓ σ α β : Type}

@[simp] theorem run_pure (a : α) (l : ℓ) : (pure a : ThreadM ℓ σ α).run l = .done (a, l) := rfl

@[simp] theorem run_bind (m : ThreadM ℓ σ α) (f : α → ThreadM ℓ σ β) (l : ℓ) :
    (m >>= f).run l = m.run l >>= fun r ↦ (f r.1).run r.2 := rfl

@[simp] theorem run_get (l : ℓ) : (get : ThreadM ℓ σ ℓ).run l = .done (l, l) := rfl

@[simp] theorem run_set (l' l : ℓ) : (set l' : ThreadM ℓ σ PUnit).run l = .done (⟨⟩, l') := rfl

@[simp] theorem run_modify (f : ℓ → ℓ) (l : ℓ) :
    (modify f : ThreadM ℓ σ PUnit).run l = .done (⟨⟩, f l) := rfl

@[simp] theorem run_lift (p : Program σ α) (l : ℓ) :
    (liftM p : ThreadM ℓ σ α).run l = p >>= fun a ↦ .done (a, l) := rfl

@[simp] theorem run_monadLift (p : Program σ α) (l : ℓ) :
    (MonadLift.monadLift p : ThreadM ℓ σ α).run l = p >>= fun a ↦ .done (a, l) := rfl

/-- What code returns is decided by its last part. -/
theorem returns_bind {P : β × ℓ → Prop} {m : ThreadM ℓ σ α} {f : α → ThreadM ℓ σ β}
    (h : ∀ a l, ((f a).run l).Returns P) (l : ℓ) : ((m >>= f).run l).Returns P :=
  Program.returns_bind fun r ↦ h r.1 r.2

end ThreadM

/-! ## Services -/

/-- The shared state and what every thread is doing: `.done l` is an idle thread with locals `l`. -/
structure Config (τ σ ℓ : Type) where
  /-- The state all threads share. -/
  shared : σ
  /-- The rest of each thread's program. -/
  thread : τ → Program σ ℓ

/-- A component whose operations are programs, with the condition its clients keep. -/
structure Service (τ κ σ ℓ : Type) where
  /-- The program of an operation. -/
  code : τ → κ → ℓ → Program σ ℓ
  /-- Whether the thread's locals and the shared state permit the call. -/
  allowed : τ → κ → ℓ → σ → Bool

/-- What can happen next. -/
inductive Move (τ κ : Type) where
  /-- An idle thread calls an operation. -/
  | call (t : τ) (k : κ)
  /-- A busy thread takes its next atomic step. -/
  | step (t : τ)

/-- A call and up to `n` steps of its thread, with nothing in between. -/
def Move.alone {τ κ : Type} (t : τ) (k : κ) (n : ℕ) : List (Move τ κ) :=
  .call t k :: List.replicate n (.step t)

namespace Service

variable {τ κ σ ℓ : Type} [DecidableEq τ] (S : Service τ κ σ ℓ)

/-- One move. A call by a busy thread, a call that is not allowed, and a step of an idle thread
change nothing. -/
def move (c : Config τ σ ℓ) : Move τ κ → Config τ σ ℓ
  | .call t k =>
    match c.thread t with
    | .done l =>
      if S.allowed t k l c.shared then
        { c with thread := Function.update c.thread t (S.code t k l) }
      else c
    | .atomic _ _ => c
  | .step t =>
    match c.thread t with
    | .done _ => c
    | .atomic update next =>
      { shared := update c.shared, thread := Function.update c.thread t (next c.shared) }

theorem move_call {c : Config τ σ ℓ} {t : τ} {l : ℓ} (k : κ) (ht : c.thread t = .done l)
    (hall : S.allowed t k l c.shared = true) :
    S.move c (.call t k)
      = { c with thread := Function.update c.thread t (S.code t k l) } := by
  simp only [move, ht, hall, if_true]

theorem move_call_refused {c : Config τ σ ℓ} {t : τ} {l : ℓ} (k : κ) (ht : c.thread t = .done l)
    (hall : ¬S.allowed t k l c.shared = true) : S.move c (.call t k) = c := by
  simp only [move, ht]
  rw [if_neg hall]

theorem move_call_busy {c : Config τ σ ℓ} {t : τ} {u : σ → σ} {next : σ → Program σ ℓ} (k : κ)
    (ht : c.thread t = .atomic u next) : S.move c (.call t k) = c := by
  simp only [move, ht]

theorem move_step_idle {c : Config τ σ ℓ} {t : τ} {l : ℓ} (ht : c.thread t = .done l) :
    S.move c (.step t) = c := by
  simp only [move, ht]

theorem move_step {c : Config τ σ ℓ} {t : τ} {u : σ → σ} {next : σ → Program σ ℓ}
    (ht : c.thread t = .atomic u next) :
    S.move c (.step t)
      = ⟨u c.shared, Function.update c.thread t (next c.shared)⟩ := by
  simp only [move, ht]

/-- A whole run. -/
def run (c : Config τ σ ℓ) (ms : List (Move τ κ)) : Config τ σ ℓ := ms.foldl S.move c

@[simp] theorem run_nil (c : Config τ σ ℓ) : S.run c [] = c := rfl

@[simp] theorem run_append_singleton (c : Config τ σ ℓ) (ms : List (Move τ κ)) (m : Move τ κ) :
    S.run c (ms ++ [m]) = S.move (S.run c ms) m := by
  rw [run, run, List.foldl_append, List.foldl_cons, List.foldl_nil]

theorem run_append (c : Config τ σ ℓ) (ms₁ ms₂ : List (Move τ κ)) :
    S.run c (ms₁ ++ ms₂) = S.run (S.run c ms₁) ms₂ := List.foldl_append

/-- What every call of a thread keeps of its locals, a run keeps. -/
theorem run_returns {t : τ} {P : ℓ → Prop}
    (hcall : ∀ k l, P l → (S.code t k l).Returns P) {c : Config τ σ ℓ}
    (h : (c.thread t).Returns P) (ms : List (Move τ κ)) :
    ((S.run c ms).thread t).Returns P := by
  induction ms using List.reverseRecOn with
  | nil => exact h
  | append_singleton ms m ih =>
    rw [run_append_singleton]
    generalize S.run c ms = c' at ih
    cases m with
    | call u k =>
      cases hu : c'.thread u with
      | atomic => rwa [S.move_call_busy k hu]
      | done l =>
        by_cases hall : S.allowed u k l c'.shared = true
        · rw [S.move_call k hu hall]
          by_cases hut : t = u
          · subst hut
            rw [hu] at ih
            simpa only [Function.update_self] using hcall k l ih
          · simpa only [Function.update_of_ne hut] using ih
        · rwa [S.move_call_refused k hu hall]
    | step u =>
      cases hu : c'.thread u with
      | done => rwa [S.move_step_idle hu]
      | atomic update next =>
        rw [S.move_step hu]
        by_cases hut : t = u
        · subst hut
          rw [hu] at ih
          simpa only [Function.update_self] using ih c'.shared
        · simpa only [Function.update_of_ne hut] using ih

/-- Where a thread was last between calls, if not now: what it is doing is one call from there. -/
theorem run_since_idle {t : τ} {R : ℓ → ℓ → Prop} (hrefl : ∀ l, R l l)
    (hcall : ∀ k l, (S.code t k l).Returns (R l)) {c : Config τ σ ℓ} {l : ℓ}
    (h : c.thread t = .done l) (ms : List (Move τ κ)) :
    ∃ ms₀ l₀, ms₀ <+: ms ∧ (ms ≠ [] → ms₀.length < ms.length) ∧
      (S.run c ms₀).thread t = .done l₀ ∧ ((S.run c ms).thread t).Returns (R l₀) := by
  induction ms using List.reverseRecOn with
  | nil =>
    refine ⟨[], l, List.prefix_rfl, fun hne ↦ absurd rfl hne, h, ?_⟩
    rw [S.run_nil, h]
    exact hrefl l
  | append_singleton ms m ih =>
    obtain ⟨ms₀, l₀, hpre, -, hidle, hreturns⟩ := ih
    have hkeep : (S.run c (ms ++ [m])).thread t = (S.run c ms).thread t →
        ∃ ms₀ l₀, ms₀ <+: ms ++ [m] ∧ (ms ++ [m] ≠ [] → ms₀.length < (ms ++ [m]).length) ∧
          (S.run c ms₀).thread t = .done l₀ ∧
          ((S.run c (ms ++ [m])).thread t).Returns (R l₀) := by
      intro hsame
      have hlength := hpre.length_le
      exact ⟨ms₀, l₀, hpre.trans (List.prefix_append _ _), fun _ ↦ by simp; omega, hidle,
        hsame ▸ hreturns⟩
    rw [run_append_singleton] at hkeep ⊢
    cases m with
    | call u k =>
      cases hu : (S.run c ms).thread u with
      | atomic => exact hkeep (by rw [S.move_call_busy k hu])
      | done l' =>
        by_cases hall : S.allowed u k l' (S.run c ms).shared = true
        · rw [S.move_call k hu hall] at hkeep ⊢
          by_cases hut : t = u
          · subst hut
            refine ⟨ms, l', List.prefix_append _ _, fun _ ↦ by simp, hu, ?_⟩
            simpa only [Function.update_self] using hcall k l'
          · exact hkeep (Function.update_of_ne hut ..)
        · exact hkeep (by rw [S.move_call_refused k hu hall])
    | step u =>
      cases hu : (S.run c ms).thread u with
      | done => exact hkeep (by rw [S.move_step_idle hu])
      | atomic update next =>
        rw [S.move_step hu] at hkeep ⊢
        by_cases hut : t = u
        · subst hut
          rw [hu] at hreturns
          have hlength := hpre.length_le
          refine ⟨ms₀, l₀, hpre.trans (List.prefix_append _ _), fun _ ↦ by simp; omega, hidle, ?_⟩
          simpa only [Function.update_self] using hreturns (S.run c ms).shared
        · exact hkeep (Function.update_of_ne hut ..)

/-- While the steps of a thread are acceptable, and its calls are guarded, so is what is left of its
program. -/
theorem run_guarded {t : τ} {ok R : σ → σ → Prop} {Q : ℓ → Prop} {c : Config τ σ ℓ}
    (h : (c.thread t).Guarded ok R Q) {ms : List (Move τ κ)}
    (hcall : ∀ pre k l, pre ++ [.call t k] <+: ms → (S.run c pre).thread t = .done l → Q l →
      S.allowed t k l (S.run c pre).shared = true → (S.code t k l).Guarded ok R Q)
    (hok : ∀ pre, pre ++ [.step t] <+: ms →
      ok (S.run c pre).shared (S.run c (pre ++ [.step t])).shared) :
    ((S.run c ms).thread t).Guarded ok R Q := by
  induction ms using List.reverseRecOn with
  | nil => exact h
  | append_singleton ms m ih =>
    have hbefore := ih (fun pre k l hpre ↦ hcall pre k l (hpre.trans (List.prefix_append _ _)))
      fun pre hpre ↦ hok pre (hpre.trans (List.prefix_append _ _))
    cases m with
    | call u k =>
      rw [run_append_singleton]
      cases hu : (S.run c ms).thread u with
      | atomic => rwa [S.move_call_busy k hu]
      | done l =>
        by_cases hall : S.allowed u k l (S.run c ms).shared = true
        · rw [S.move_call k hu hall]
          by_cases hut : t = u
          · subst hut
            rw [hu] at hbefore
            simpa only [Function.update_self] using hcall ms k l List.prefix_rfl hu hbefore hall
          · simpa only [Function.update_of_ne hut] using hbefore
        · rwa [S.move_call_refused k hu hall]
    | step u =>
      by_cases hut : t = u
      · subst hut
        have hstep := hok ms List.prefix_rfl
        rw [run_append_singleton] at hstep ⊢
        cases hu : (S.run c ms).thread t with
        | done => rwa [S.move_step_idle hu]
        | atomic update next =>
          rw [hu] at hbefore
          rw [S.move_step hu] at hstep ⊢
          simpa only [Function.update_self] using (hbefore _ hstep).2
      · rw [run_append_singleton]
        cases hu : (S.run c ms).thread u with
        | done => rwa [S.move_step_idle hu]
        | atomic update next =>
          rw [S.move_step hu]
          simpa only [Function.update_of_ne hut] using hbefore

/-- A step of a guarded thread, if acceptable, keeps `R`. -/
theorem step_guarded {t : τ} {ok R : σ → σ → Prop} {Q : ℓ → Prop} {c : Config τ σ ℓ}
    (h : (c.thread t).Guarded ok R Q) (hok : ok c.shared (S.move c (.step t)).shared)
    (hrefl : ∀ s, R s s) : R c.shared (S.move c (.step t)).shared := by
  cases ht : c.thread t with
  | done l =>
    rw [S.move_step_idle ht]
    exact hrefl _
  | atomic update next =>
    rw [ht] at h
    rw [S.move_step ht] at hok ⊢
    exact (h _ hok).1

end Service

namespace Config

variable {τ σ ℓ : Type}

/-- Every thread idle, with the same locals. -/
def start (s : σ) (l : ℓ) : Config τ σ ℓ := ⟨s, fun _ ↦ .done l⟩

/-- The thread is between calls, with locals `l`. -/
def Idle (c : Config τ σ ℓ) (t : τ) (l : ℓ) : Prop := c.thread t = .done l

end Config

end Concurrency
