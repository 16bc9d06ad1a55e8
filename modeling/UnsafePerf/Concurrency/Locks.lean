import UnsafePerf.Concurrency.Program
import Mathlib.Logic.Relation

/-!
# Mutexes and re-entrance

A component that takes mutexes can be entered again from inside its own critical sections: while it
holds a mutex it runs code that is not its own, and this code calls the component. If the inner call
wants a mutex the thread already holds, the thread waits for itself.

`LockProgram` has a step for taking a mutex, one for giving it back, and one, `callback`, where
foreign code runs: it may call any operation of the component any number of times, and these calls
meet callbacks of their own, so a thread is a stack of suspended programs. Nothing is assumed of the
foreign code but that it leaves the thread's locals alone; what the inner calls do to the locals
they do in the model.

## The discipline

A component is *disciplined* if no operation locks a mutex while it holds one, and every callback
made while one is held is made with *quiet* locals, with which no operation takes a mutex. The
notion is local, a predicate on each program by recursion (`LockProgram.Disciplined`). Down the stack
of a thread it adds up to an invariant of all runs (`LockConfig.Sound`): the thread holds at most
one mutex, and none if it is about to lock one. A thread that waits then holds nothing, so nobody
waits for it, and there is no cycle.
-/

namespace Concurrency

/-! ## Programs with mutexes -/

/-- A program over the shared state `σ` and the mutexes `μ`, in threads with locals `ℓ`. -/
inductive LockProgram (μ σ ℓ α : Type) where
  /-- The program has returned. -/
  | done (a : α)
  /-- One atomic step. -/
  | atomic (update : σ → σ) (next : σ → LockProgram μ σ ℓ α)
  /-- Take the mutex, as soon as no thread holds it. -/
  | lock (m : μ) (next : LockProgram μ σ ℓ α)
  /-- Give the mutex back. -/
  | unlock (m : μ) (next : LockProgram μ σ ℓ α)
  /-- Run foreign code in a thread with these locals, and go on with what it leaves of them. -/
  | callback (locals : ℓ) (next : ℓ → LockProgram μ σ ℓ α)

namespace LockProgram

variable {μ σ ℓ κ α β : Type}

/-- Sequencing. -/
def bind : LockProgram μ σ ℓ α → (α → LockProgram μ σ ℓ β) → LockProgram μ σ ℓ β
  | .done a, f => f a
  | .atomic update next, f => .atomic update fun s ↦ (next s).bind f
  | .lock m next, f => .lock m (next.bind f)
  | .unlock m next, f => .unlock m (next.bind f)
  | .callback locals next, f => .callback locals fun l ↦ (next l).bind f

instance : Monad (LockProgram μ σ ℓ) where
  pure := .done
  bind := bind

/-- A program that takes no mutex. -/
def ofProgram : Program σ α → LockProgram μ σ ℓ α
  | .done a => .done a
  | .atomic update next => .atomic update fun s ↦ ofProgram (next s)

instance : MonadLift (Program σ) (LockProgram μ σ ℓ) where
  monadLift := ofProgram

@[simp] theorem pure_eq (a : α) : (pure a : LockProgram μ σ ℓ α) = .done a := rfl

@[simp] theorem done_bind (a : α) (f : α → LockProgram μ σ ℓ β) : (.done a >>= f) = f a := rfl

/-- The mutex the program locks with its next step. -/
def attempted : LockProgram μ σ ℓ α → Option μ
  | .lock m _ => some m
  | _ => none

theorem attempted_eq_some {p : LockProgram μ σ ℓ α} {m : μ} :
    p.attempted = some m ↔ ∃ next, p = .lock m next := by
  cases p <;> simp [attempted]

/-! ### Without the mutexes -/

/-- The program with its mutexes and its callbacks left out. -/
def erase : LockProgram μ σ ℓ α → Program σ α
  | .done a => .done a
  | .atomic update next => .atomic update fun s ↦ (next s).erase
  | .lock _ next => next.erase
  | .unlock _ next => next.erase
  | .callback locals next => (next locals).erase

@[simp] theorem erase_done (a : α) : (.done a : LockProgram μ σ ℓ α).erase = .done a := rfl

@[simp] theorem erase_bind (p : LockProgram μ σ ℓ α) (f : α → LockProgram μ σ ℓ β) :
    (p >>= f).erase = p.erase >>= fun a ↦ (f a).erase := by
  induction p with
  | done a => rfl
  | atomic update next ih => exact congrArg (Program.atomic update) (funext ih)
  | lock m next ih => exact ih
  | unlock m next ih => exact ih
  | callback locals next ih => exact ih locals

@[simp] theorem erase_ofProgram (p : Program σ α) :
    (ofProgram p : LockProgram μ σ ℓ α).erase = p := by
  induction p with
  | done a => rfl
  | atomic update next ih => exact congrArg (Program.atomic update) (funext ih)

/-! ### The discipline -/

/-- Started while the mutex `held` is held, the program locks only while it holds nothing, makes
callbacks under a mutex only with quiet locals, and returns with `Q` and the mutex `kept` held. -/
def Disciplined (quiet : ℓ → Prop) (Q : α → Prop) (kept : Option μ) :
    Option μ → LockProgram μ σ ℓ α → Prop
  | held, .done a => held = kept ∧ Q a
  | held, .atomic _ next => ∀ s, Disciplined quiet Q kept held (next s)
  | held, .lock m next => held = none ∧ Disciplined quiet Q kept (some m) next
  | held, .unlock m next => held = some m ∧ Disciplined quiet Q kept none next
  | held, .callback locals next =>
    (held ≠ none → quiet locals) ∧ Disciplined quiet Q kept held (next locals)

variable {quiet : ℓ → Prop} {P : α → Prop} {Q : β → Prop} {held kept kept' : Option μ}

theorem Disciplined.bind {p : LockProgram μ σ ℓ α} {f : α → LockProgram μ σ ℓ β}
    (h : p.Disciplined quiet P kept held) (hf : ∀ a, P a → (f a).Disciplined quiet Q kept' kept) :
    (p >>= f).Disciplined quiet Q kept' held := by
  induction p generalizing held with
  | done a =>
    obtain ⟨rfl, ha⟩ := h
    exact hf a ha
  | atomic update next ih => exact fun s ↦ ih s (h s)
  | lock m next ih => exact ⟨h.1, ih h.2⟩
  | unlock m next ih => exact ⟨h.1, ih h.2⟩
  | callback locals next ih => exact ⟨h.1, ih locals h.2⟩

theorem disciplined_ofProgram {p : Program σ α} (h : p.Returns P) :
    (ofProgram p : LockProgram μ σ ℓ α).Disciplined quiet P held held := by
  induction p with
  | done a => exact ⟨rfl, h⟩
  | atomic update next ih => exact fun s ↦ ih s (h s)

/-! ### Executions with inner calls -/

/-- `p.Runs E code s a s'`: started in `s`, the program can return `a` and leave `s'`, where its
callbacks make any calls of `code`, and these run likewise, and other threads make steps of `E` at
any time. Whether a mutex is free is not looked at, so that nothing a thread does is left out. -/
inductive Runs (E : σ → σ → Prop) (code : κ → ℓ → LockProgram μ σ ℓ ℓ) :
    {α : Type} → LockProgram μ σ ℓ α → σ → α → σ → Prop where
  | done {α : Type} (a : α) (s : σ) : Runs E code (.done a) s a s
  | env {α : Type} {p : LockProgram μ σ ℓ α} {s s₁ s' : σ} {a : α} :
      E s s₁ → Runs E code p s₁ a s' → Runs E code p s a s'
  | atomic {α : Type} {u : σ → σ} {next : σ → LockProgram μ σ ℓ α} {s s' : σ} {a : α} :
      Runs E code (next s) (u s) a s' → Runs E code (.atomic u next) s a s'
  | lock {α : Type} {m : μ} {next : LockProgram μ σ ℓ α} {s s' : σ} {a : α} :
      Runs E code next s a s' → Runs E code (.lock m next) s a s'
  | unlock {α : Type} {m : μ} {next : LockProgram μ σ ℓ α} {s s' : σ} {a : α} :
      Runs E code next s a s' → Runs E code (.unlock m next) s a s'
  | call {α : Type} {l l' : ℓ} {next : ℓ → LockProgram μ σ ℓ α} {s s₁ s' : σ} {a : α} (k : κ) :
      Runs E code (code k l) s l' s₁ → Runs E code (.callback l' next) s₁ a s' →
      Runs E code (.callback l next) s a s'
  | proceed {α : Type} {l : ℓ} {next : ℓ → LockProgram μ σ ℓ α} {s s' : σ} {a : α} :
      Runs E code (next l) s a s' → Runs E code (.callback l next) s a s'

/-- Callbacks that call nothing are among the executions. -/
theorem Runs.of_erase {E : σ → σ → Prop} (code : κ → ℓ → LockProgram μ σ ℓ ℓ)
    {p : LockProgram μ σ ℓ α} {s s' : σ} {a : α} (h : p.erase.Runs E s a s') :
    p.Runs E code s a s' := by
  induction p generalizing s with
  | lock m next ih => exact .lock (ih h)
  | unlock m next ih => exact .unlock (ih h)
  | callback locals next ih => exact .proceed (ih locals h)
  | done b =>
    rw [erase_done] at h
    generalize hq : (.done b : Program σ α) = q at h
    induction h with
    | done =>
      cases hq
      exact .done ..
    | env hE _ ih => exact .env hE (ih hq)
    | atomic => cases hq
  | atomic update next ih =>
    generalize hq : (LockProgram.atomic update next).erase = q at h
    induction h with
    | done => cases hq
    | env hE _ ih' => exact .env hE (ih' ih hq)
    | atomic hruns =>
      cases hq
      exact .atomic (ih _ hruns)

/-- Every operation is disciplined, keeps the locals it is started with, and with quiet locals takes
no mutex. -/
def AllDisciplined (quiet : ℓ → Prop) (code : κ → ℓ → LockProgram μ σ ℓ ℓ) : Prop :=
  ∀ k l held, (held ≠ none → quiet l) → (code k l).Disciplined quiet (· = l) held held

/-- What the discipline says of the result holds whatever is called in between. -/
theorem Runs.returns {E : σ → σ → Prop} {code : κ → ℓ → LockProgram μ σ ℓ ℓ}
    (hcode : AllDisciplined quiet code) {p : LockProgram μ σ ℓ α} {s s' : σ} {a : α}
    (h : p.Runs E code s a s') (hp : p.Disciplined quiet P kept held) : P a := by
  induction h generalizing kept held with
  | done a s => exact hp.2
  | env _ _ ih => exact ih hp
  | atomic _ ih => exact ih (hp _)
  | lock _ ih => exact ih hp.2
  | unlock _ ih => exact ih hp.2
  | call k _ _ ihcall ih =>
    obtain rfl := ihcall (hcode k _ held hp.1)
    exact ih hp
  | proceed _ ih => exact ih hp.2

end LockProgram

/-! ## Code with mutexes and thread-local state -/

/-- Programs with the mutexes `μ` over the shared state `σ`, with thread-local state `ℓ`. -/
abbrev LockM (μ σ ℓ : Type) := StateT ℓ (LockProgram μ σ ℓ)

namespace LockM

open LockProgram

variable {μ σ ℓ κ α β : Type}

/-- Take the mutex. -/
def lock (m : μ) : LockM μ σ ℓ Unit := fun l ↦ .lock m (.done ((), l))

/-- Give the mutex back. -/
def unlock (m : μ) : LockM μ σ ℓ Unit := fun l ↦ .unlock m (.done ((), l))

/-- Run foreign code. -/
def callback : LockM μ σ ℓ Unit := fun l ↦ .callback l fun l' ↦ .done ((), l')

/-- Code that runs with a mutex held. -/
def critical (m : μ) (f : LockM μ σ ℓ α) : LockM μ σ ℓ α := do
  lock m
  let a ← f
  unlock m
  return a

/-! ### Without the mutexes -/

/-- The code without its mutexes and callbacks. -/
def erase (f : LockM μ σ ℓ α) : ThreadM ℓ σ α := fun l ↦ (f.run l).erase

@[simp] theorem erase_pure (a : α) : erase (pure a : LockM μ σ ℓ α) = pure a := rfl

@[simp] theorem erase_bind (f : LockM μ σ ℓ α) (g : α → LockM μ σ ℓ β) :
    erase (f >>= g) = erase f >>= fun a ↦ erase (g a) :=
  funext fun l ↦ LockProgram.erase_bind (f.run l) fun r ↦ (g r.1).run r.2

@[simp] theorem erase_get : erase (get : LockM μ σ ℓ ℓ) = get := rfl

@[simp] theorem erase_set (l : ℓ) : erase (set l : LockM μ σ ℓ PUnit) = set l := rfl

@[simp] theorem erase_lift (p : Program σ α) : erase (liftM p : LockM μ σ ℓ α) = liftM p :=
  funext fun l ↦ (LockProgram.erase_bind (ofProgram p) fun a ↦ .done (a, l)).trans
    (congrArg (· >>= fun a ↦ .done (a, l)) (erase_ofProgram p))

@[simp] theorem erase_lock (m : μ) : erase (lock m : LockM μ σ ℓ Unit) = pure () := rfl

@[simp] theorem erase_unlock (m : μ) : erase (unlock m : LockM μ σ ℓ Unit) = pure () := rfl

@[simp] theorem erase_callback : erase (callback : LockM μ σ ℓ Unit) = pure () := rfl

@[simp] theorem erase_critical (m : μ) (f : LockM μ σ ℓ α) : erase (critical m f) = erase f := by
  simp [critical]

@[simp] theorem erase_ite (P : Prop) [Decidable P] (f g : LockM μ σ ℓ α) :
    erase (if P then f else g) = if P then erase f else erase g := apply_ite ..

/-! ### Careful code -/

/-- Called with nothing held, or with quiet locals, the code is disciplined, gives back what it took,
and leaves the locals as they were. -/
def Careful (quiet : ℓ → Prop) (f : LockM μ σ ℓ α) : Prop :=
  ∀ l held, (held ≠ none → quiet l) →
    (f.run l).Disciplined quiet (fun r ↦ r.2 = l) held held

variable {quiet : ℓ → Prop}

theorem careful_pure (a : α) : Careful quiet (pure a : LockM μ σ ℓ α) :=
  fun _ _ _ ↦ ⟨rfl, rfl⟩

theorem careful_lift (p : Program σ α) : Careful quiet (liftM p : LockM μ σ ℓ α) := by
  intro l held _
  have hreturns : p.Returns fun _ ↦ True := by
    induction p with
    | done a => trivial
    | atomic update next ih => exact ih
  exact (disciplined_ofProgram hreturns).bind fun a _ ↦ ⟨rfl, rfl⟩

theorem Careful.bind {f : LockM μ σ ℓ α} {g : α → LockM μ σ ℓ β} (hf : Careful quiet f)
    (hg : ∀ a, Careful quiet (g a)) : Careful quiet (f >>= g) := by
  intro l held hquiet
  refine (hf l held hquiet).bind ?_
  rintro ⟨a, l'⟩ rfl
  exact hg a l' held hquiet

theorem Careful.ite {P : Prop} [Decidable P] {f g : LockM μ σ ℓ α} (hf : Careful quiet f)
    (hg : Careful quiet g) : Careful quiet (if P then f else g) := by
  split
  · exact hf
  · exact hg

theorem careful_callback : Careful quiet (callback : LockM μ σ ℓ Unit) :=
  fun _ _ hquiet ↦ ⟨hquiet, rfl, rfl⟩

/-- A critical section can be entered when nothing is held, and with quiet locals. -/
theorem Careful.critical {f : LockM μ σ ℓ α} (hf : Careful quiet f) (m : μ) {l : ℓ}
    (hquiet : quiet l) :
    ((critical m f).run l).Disciplined quiet (fun r ↦ r.2 = l) none none := by
  refine ⟨rfl, (hf l (some m) fun _ ↦ hquiet).bind ?_⟩
  rintro ⟨a, l'⟩ rfl
  exact ⟨rfl, rfl, rfl⟩

theorem careful_get : Careful quiet (get : LockM μ σ ℓ ℓ) := fun _ _ _ ↦ ⟨rfl, rfl⟩

/-- A component of careful operations is disciplined. -/
theorem allDisciplined {code : κ → LockM μ σ ℓ Unit} (h : ∀ k, Careful quiet (code k)) :
    AllDisciplined quiet fun k l ↦ Prod.snd <$> (code k).run l :=
  fun k l held hquiet ↦ (h k l held hquiet).bind fun _ hr ↦ ⟨rfl, hr⟩

/-- Whatever its callbacks call, careful code that returns has left the locals as they were. -/
theorem Careful.locals_eq {E : σ → σ → Prop} {code : κ → ℓ → LockProgram μ σ ℓ ℓ}
    (hcode : AllDisciplined quiet code) {f : LockM μ σ ℓ α} (hf : Careful quiet f) {l : ℓ}
    {s s' : σ} {r : α × ℓ} (h : (f.run l).Runs E code s r s') : r.2 = l :=
  h.returns hcode (hf l none fun hne ↦ absurd rfl hne)

end LockM

/-! ## Threads as stacks -/

/-- What a thread is doing: its program, and the programs it has suspended in a callback, the
innermost first. -/
structure CallStack (μ σ ℓ : Type) where
  current : LockProgram μ σ ℓ ℓ
  suspended : List (ℓ → LockProgram μ σ ℓ ℓ)

/-- The shared state, who holds which mutex, and what every thread is doing. -/
structure LockConfig (τ μ σ ℓ : Type) where
  shared : σ
  holder : μ → Option τ
  thread : τ → CallStack μ σ ℓ

namespace LockConfig

variable {τ κ μ σ ℓ : Type}

/-- Every thread idle, no mutex held. -/
def start (s : σ) (locals : τ → ℓ) : LockConfig τ μ σ ℓ :=
  ⟨s, fun _ ↦ none, fun t ↦ ⟨.done (locals t), []⟩⟩

/-- The thread is about to lock the mutex. -/
def Attempts (c : LockConfig τ μ σ ℓ) (t : τ) (m : μ) : Prop :=
  (c.thread t).current.attempted = some m

/-- The thread holds the mutex. -/
def Holds (c : LockConfig τ μ σ ℓ) (t : τ) (m : μ) : Prop := c.holder m = some t

/-- The first thread cannot go on before the second has given a mutex back. -/
def Waits (c : LockConfig τ μ σ ℓ) (t u : τ) : Prop := ∃ m, c.Attempts t m ∧ c.Holds u m

variable [DecidableEq τ] [DecidableEq μ]

instance (c : LockConfig τ μ σ ℓ) (t : τ) (m : μ) : Decidable (c.Attempts t m) :=
  inferInstanceAs (Decidable (_ = _))

instance (c : LockConfig τ μ σ ℓ) (t : τ) (m : μ) : Decidable (c.Holds t m) :=
  inferInstanceAs (Decidable (_ = _))

/-- Give the thread something else to do. -/
def setThread (c : LockConfig τ μ σ ℓ) (t : τ) (stack : CallStack μ σ ℓ) :
    LockConfig τ μ σ ℓ := { c with thread := Function.update c.thread t stack }

/-- A call: by an idle thread, or from inside a callback. -/
def call (code : τ → κ → ℓ → LockProgram μ σ ℓ ℓ) (c : LockConfig τ μ σ ℓ) (t : τ) (k : κ) :
    LockConfig τ μ σ ℓ :=
  match c.thread t with
  | ⟨.done l, []⟩ => c.setThread t ⟨code t k l, []⟩
  | ⟨.callback l next, rest⟩ => c.setThread t ⟨code t k l, next :: rest⟩
  | _ => c

/-- A step of a thread. A mutex that is held, by whichever thread, makes it wait; an inner call that
has returned leads back to the callback it was made from. -/
def step (c : LockConfig τ μ σ ℓ) (t : τ) : LockConfig τ μ σ ℓ :=
  match c.thread t with
  | ⟨.done _, []⟩ => c
  | ⟨.done l, next :: rest⟩ => c.setThread t ⟨.callback l next, rest⟩
  | ⟨.atomic update next, rest⟩ =>
    { c.setThread t ⟨next c.shared, rest⟩ with shared := update c.shared }
  | ⟨.lock m next, rest⟩ =>
    if c.holder m = none then
      { c.setThread t ⟨next, rest⟩ with holder := Function.update c.holder m (some t) }
    else c
  | ⟨.unlock m next, rest⟩ =>
    { c.setThread t ⟨next, rest⟩ with holder := Function.update c.holder m none }
  | ⟨.callback l next, rest⟩ => c.setThread t ⟨next l, rest⟩

/-- One move. -/
def move (code : τ → κ → ℓ → LockProgram μ σ ℓ ℓ) (c : LockConfig τ μ σ ℓ) :
    Move τ κ → LockConfig τ μ σ ℓ
  | .call t k => c.call code t k
  | .step t => c.step t

/-- A whole run. -/
def run (code : τ → κ → ℓ → LockProgram μ σ ℓ ℓ) (c : LockConfig τ μ σ ℓ)
    (ms : List (Move τ κ)) : LockConfig τ μ σ ℓ := ms.foldl (move code) c

end LockConfig

/-! ## The invariant -/

section Invariant

open LockProgram

variable {τ κ μ σ ℓ : Type} {quiet : ℓ → Prop} {l₀ : ℓ} {held : Option μ}

/-- The thread holds `held` and keeps the discipline down its stack: each program returns with the
mutex held under which it was called, and with the locals it was started with. -/
def StackSound (quiet : ℓ → Prop) (l₀ : ℓ) :
    Option μ → LockProgram μ σ ℓ ℓ → List (ℓ → LockProgram μ σ ℓ ℓ) → Prop
  | held, p, [] => p.Disciplined quiet (· = l₀) none held
  | held, p, next :: rest =>
    ∃ l kept, p.Disciplined quiet (· = l) kept held ∧
      StackSound quiet l₀ kept (.callback l next) rest

/-- The top of a sound stack is disciplined. -/
theorem StackSound.top {p : LockProgram μ σ ℓ ℓ} {rest : List (ℓ → LockProgram μ σ ℓ ℓ)}
    (h : StackSound quiet l₀ held p rest) : ∃ Q kept, p.Disciplined quiet Q kept held := by
  cases rest with
  | nil => exact ⟨_, _, h⟩
  | cons next rest =>
    obtain ⟨l, kept, hp, -⟩ := h
    exact ⟨_, kept, hp⟩

/-- A step of the program on top that keeps the discipline leaves the stack sound. -/
theorem StackSound.replace {held' : Option μ} {p p' : LockProgram μ σ ℓ ℓ}
    {rest : List (ℓ → LockProgram μ σ ℓ ℓ)} (h : StackSound quiet l₀ held p rest)
    (hp : ∀ Q kept, p.Disciplined quiet Q kept held → p'.Disciplined quiet Q kept held') :
    StackSound quiet l₀ held' p' rest := by
  cases rest with
  | nil => exact hp _ _ h
  | cons next rest =>
    obtain ⟨l, kept, htop, hrest⟩ := h
    exact ⟨l, kept, hp _ _ htop, hrest⟩

/-- An inner call leaves the stack sound. -/
theorem StackSound.push {code : κ → ℓ → LockProgram μ σ ℓ ℓ} (hcode : AllDisciplined quiet code)
    {l : ℓ} {next : ℓ → LockProgram μ σ ℓ ℓ} {rest : List (ℓ → LockProgram μ σ ℓ ℓ)}
    (h : StackSound quiet l₀ held (.callback l next) rest) (k : κ) :
    StackSound quiet l₀ held (code k l) (next :: rest) := by
  obtain ⟨Q, kept, hquiet, -⟩ := h.top
  exact ⟨l, held, hcode k l held hquiet, h⟩

/-- The return of an inner call leaves the stack sound. -/
theorem StackSound.pop {l : ℓ} {next : ℓ → LockProgram μ σ ℓ ℓ}
    {rest : List (ℓ → LockProgram μ σ ℓ ℓ)}
    (h : StackSound quiet l₀ held (.done l) (next :: rest)) :
    StackSound quiet l₀ held (.callback l next) rest := by
  obtain ⟨l', kept, ⟨rfl, rfl⟩, hrest⟩ := h
  exact hrest

namespace LockConfig

/-- The thread holds `held` and nothing else. -/
def HoldsJust (c : LockConfig τ μ σ ℓ) (t : τ) (held : Option μ) : Prop :=
  ∀ m, c.Holds t m ↔ held = some m

/-- The invariant of all runs: every thread holds at most one mutex, and keeps the discipline. -/
def Sound (quiet : ℓ → Prop) (locals : τ → ℓ) (c : LockConfig τ μ σ ℓ) : Prop :=
  ∀ t, ∃ held, c.HoldsJust t held ∧
    StackSound quiet (locals t) held (c.thread t).current (c.thread t).suspended

variable {locals : τ → ℓ} {c : LockConfig τ μ σ ℓ}

theorem sound_start (s : σ) : (start s locals : LockConfig τ μ σ ℓ).Sound quiet locals :=
  fun _ ↦ ⟨none, fun _ ↦ by simp [Holds, start], rfl, rfl⟩

/-- A thread of a sound configuration that is about to lock a mutex holds none. -/
theorem Sound.not_holds (h : c.Sound quiet locals) {t : τ} {m : μ} (ht : c.Attempts t m) (m' : μ) :
    ¬c.Holds t m' := by
  obtain ⟨held, hheld, hstack⟩ := h t
  obtain ⟨next, hnext⟩ := attempted_eq_some.mp ht
  rw [hnext] at hstack
  obtain ⟨Q, kept, rfl, -⟩ := hstack.top
  rw [hheld]
  exact Option.some_ne_none _ ∘ Eq.symm

/-- A thread that is waited for does not wait itself. -/
theorem not_waits_of_waits (h : ∀ t m, c.Attempts t m → ∀ m', ¬c.Holds t m') {t u : τ}
    (ht : c.Waits t u) (v : τ) : ¬c.Waits u v := by
  rintro ⟨m', hattempt, -⟩
  obtain ⟨m, -, hm⟩ := ht
  exact h u m' hattempt m hm

/-- If whoever waits holds nothing, no chain of waiting threads comes back to where it began. -/
theorem not_transGen_waits (h : ∀ t m, c.Attempts t m → ∀ m', ¬c.Holds t m') (t : τ) :
    ¬Relation.TransGen c.Waits t t := by
  intro hcycle
  obtain ⟨u, hfirst, -⟩ := Relation.TransGen.head'_iff.mp hcycle
  obtain ⟨v, -, hlast⟩ := Relation.TransGen.tail'_iff.mp hcycle
  exact not_waits_of_waits h hlast u hfirst

/-- A thread that is between calls has the locals it began with. -/
theorem Sound.locals_eq (h : c.Sound quiet locals) {t : τ} {l : ℓ}
    (ht : c.thread t = ⟨.done l, []⟩) : l = locals t := by
  obtain ⟨held, -, hstack⟩ := h t
  rw [ht] at hstack
  exact hstack.2

/-- A change to one thread, and to what it holds. -/
theorem Sound.update {c' : LockConfig τ μ σ ℓ} (h : c.Sound quiet locals) {t : τ}
    (hthread : ∀ u ≠ t, c'.thread u = c.thread u)
    (hholds : ∀ u ≠ t, ∀ m, c'.Holds u m ↔ c.Holds u m)
    (ht : ∃ held, c'.HoldsJust t held ∧
      StackSound quiet (locals t) held (c'.thread t).current (c'.thread t).suspended) :
    c'.Sound quiet locals := by
  intro u
  by_cases hut : u = t
  · exact hut ▸ ht
  · obtain ⟨held, hheld, hstack⟩ := h u
    refine ⟨held, fun m ↦ (hholds u hut m).trans (hheld m), ?_⟩
    rwa [hthread u hut]

variable [DecidableEq τ]

/-- A thread goes on without touching a mutex. -/
theorem Sound.setThread (h : c.Sound quiet locals) {t : τ} {stack : CallStack μ σ ℓ} (s : σ)
    (ht : ∀ held, StackSound quiet (locals t) held (c.thread t).current (c.thread t).suspended →
      StackSound quiet (locals t) held stack.current stack.suspended) :
    ({ c.setThread t stack with shared := s }).Sound quiet locals := by
  obtain ⟨held, hheld, hstack⟩ := h t
  refine h.update (t := t) (fun u hut ↦ Function.update_of_ne hut ..) (fun u _ m ↦ Iff.rfl)
    ⟨held, hheld, ?_⟩
  simpa only [LockConfig.setThread, Function.update_self] using ht held hstack

/-- One call keeps the invariant. -/
theorem sound_call {code : τ → κ → ℓ → LockProgram μ σ ℓ ℓ}
    (hcode : ∀ t, AllDisciplined quiet (code t)) (h : c.Sound quiet locals) (t : τ) (k : κ) :
    (c.call code t k).Sound quiet locals := by
  unfold call
  split
  case h_1 l ht =>
    refine h.setThread c.shared fun held hstack ↦ ?_
    rw [ht] at hstack
    obtain ⟨rfl, rfl⟩ := hstack
    exact hcode t k _ none fun hne ↦ absurd rfl hne
  case h_2 l next rest ht =>
    refine h.setThread c.shared fun held hstack ↦ ?_
    rw [ht] at hstack
    exact hstack.push (hcode t) k
  case h_3 => exact h

variable [DecidableEq μ]

/-- A thread takes a free mutex. -/
theorem Sound.lock (h : c.Sound quiet locals) {t : τ} {m : μ} {next : LockProgram μ σ ℓ ℓ}
    {rest : List (ℓ → LockProgram μ σ ℓ ℓ)} (ht : c.thread t = ⟨.lock m next, rest⟩)
    (hfree : c.holder m = none) :
    ({ c.setThread t ⟨next, rest⟩ with
      holder := Function.update c.holder m (some t) }).Sound quiet locals := by
  obtain ⟨held, hheld, hstack⟩ := h t
  rw [ht] at hstack
  obtain ⟨-, -, rfl, -⟩ := hstack.top
  refine h.update (t := t) (fun u hut ↦ Function.update_of_ne hut ..) (fun u hut m' ↦ ?_)
    ⟨some m, fun m' ↦ ?_, ?_⟩
  · by_cases hm : m' = m
    · subst hm
      simp [Holds, hfree, Ne.symm hut]
    · simp [Holds, hm]
  · by_cases hm : m' = m
    · subst hm
      simp [Holds]
    · have hnone := hheld m'
      simp only [Holds, reduceCtorEq, iff_false] at hnone
      simp [Holds, hm, hnone, Ne.symm hm]
  · simpa only [LockConfig.setThread, Function.update_self]
      using hstack.replace fun Q kept hp ↦ hp.2

/-- A thread gives a mutex back. -/
theorem Sound.unlock (h : c.Sound quiet locals) {t : τ} {m : μ} {next : LockProgram μ σ ℓ ℓ}
    {rest : List (ℓ → LockProgram μ σ ℓ ℓ)} (ht : c.thread t = ⟨.unlock m next, rest⟩) :
    ({ c.setThread t ⟨next, rest⟩ with
      holder := Function.update c.holder m none }).Sound quiet locals := by
  obtain ⟨held, hheld, hstack⟩ := h t
  rw [ht] at hstack
  obtain ⟨-, -, rfl, -⟩ := hstack.top
  have hmine : c.holder m = some t := (hheld m).mpr rfl
  refine h.update (t := t) (fun u hut ↦ Function.update_of_ne hut ..) (fun u hut m' ↦ ?_)
    ⟨none, fun m' ↦ ?_, ?_⟩
  · by_cases hm : m' = m
    · subst hm
      simp [Holds, hmine, Ne.symm hut]
    · simp [Holds, hm]
  · by_cases hm : m' = m
    · subst hm
      simp [Holds]
    · have hjust := hheld m'
      simp only [Holds, Option.some.injEq, Ne.symm hm, iff_false] at hjust
      simp [Holds, hm, hjust]
  · simpa only [LockConfig.setThread, Function.update_self]
      using hstack.replace fun Q kept hp ↦ hp.2

/-- One step keeps the invariant. -/
theorem sound_step (h : c.Sound quiet locals) (t : τ) : (c.step t).Sound quiet locals := by
  unfold step
  split
  case h_1 => exact h
  case h_2 l next rest ht =>
    refine h.setThread c.shared fun held hstack ↦ ?_
    rw [ht] at hstack
    exact hstack.pop
  case h_3 update next rest ht =>
    refine h.setThread (update c.shared) fun held hstack ↦ ?_
    rw [ht] at hstack
    exact hstack.replace fun Q kept hp ↦ hp c.shared
  case h_4 m next rest ht =>
    split
    case isTrue hfree => exact h.lock ht hfree
    case isFalse => exact h
  case h_5 m next rest ht => exact h.unlock ht
  case h_6 l next rest ht =>
    refine h.setThread c.shared fun held hstack ↦ ?_
    rw [ht] at hstack
    exact hstack.replace fun Q kept hp ↦ hp.2

/-- A run keeps the invariant. -/
theorem sound_run {code : τ → κ → ℓ → LockProgram μ σ ℓ ℓ}
    (hcode : ∀ t, AllDisciplined quiet (code t)) (h : c.Sound quiet locals)
    (ms : List (Move τ κ)) : (run code c ms).Sound quiet locals := by
  induction ms generalizing c with
  | nil => exact h
  | cons m ms ih =>
    cases m with
    | call t k => exact ih (sound_call hcode h t k)
    | step t => exact ih (sound_step h t)

end LockConfig

end Invariant

end Concurrency
