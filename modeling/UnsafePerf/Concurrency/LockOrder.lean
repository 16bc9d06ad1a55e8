import UnsafePerf.Concurrency.Locks
import Mathlib.Data.Finset.Basic

/-!
# Mutexes taken in order

A component whose critical sections nest is safe from deadlock if its mutexes have ranks and are
only locked in ascending order. `LockProgram.Ordered` is the discipline of one program, by recursion
on it, and `LockConfig.OrderSound` the invariant of all runs that it adds up to.

A thread that waits has a lower rank behind it than the one it waits for. Along a chain of waiting
threads the ranks ascend, so the chain does not come back to where it began
(`OrderSound.not_transGen_waits`), and if the ranks are bounded it ends, with a thread that can go on
(`OrderSound.exists_unblocked`).
-/

namespace Concurrency

namespace LockProgram

section Holding

variable {μ σ ℓ α : Type}

/-- Take the mutex. -/
def acquire (m : μ) : LockProgram μ σ ℓ Unit := .lock m (.done ())

/-- Give the mutex back. -/
def release (m : μ) : LockProgram μ σ ℓ Unit := .unlock m (.done ())

/-- A critical section. -/
def holding (m : μ) (p : LockProgram μ σ ℓ α) : LockProgram μ σ ℓ α := do
  acquire m
  let a ← p
  release m
  return a

end Holding

variable {μ σ ℓ α β : Type} [DecidableEq μ] {rank : μ → ℕ} {held kept kept' : Finset μ}

/-- Started while the mutexes `held` are held, the program locks only mutexes of a higher rank than
all it holds, runs foreign code only while it holds none, and returns with `kept` held. -/
def Ordered (rank : μ → ℕ) (kept : Finset μ) : Finset μ → LockProgram μ σ ℓ α → Prop
  | held, .done _ => held = kept
  | held, .atomic _ next => ∀ s, Ordered rank kept held (next s)
  | held, .lock m next => (∀ m' ∈ held, rank m' < rank m) ∧ Ordered rank kept (insert m held) next
  | held, .unlock m next => m ∈ held ∧ Ordered rank kept (held.erase m) next
  | held, .callback _ next => held = ∅ ∧ ∀ l, Ordered rank kept ∅ (next l)

theorem Ordered.bind {p : LockProgram μ σ ℓ α} {f : α → LockProgram μ σ ℓ β}
    (h : p.Ordered rank kept held) (hf : ∀ a, (f a).Ordered rank kept' kept) :
    (p >>= f).Ordered rank kept' held := by
  induction p generalizing held with
  | done a =>
    obtain rfl : held = kept := h
    exact hf a
  | atomic update next ih => exact fun s ↦ ih s (h s)
  | lock m next ih => exact ⟨h.1, ih h.2⟩
  | unlock m next ih => exact ⟨h.1, ih h.2⟩
  | callback locals next ih => exact ⟨h.1, fun l ↦ ih l (h.2 l)⟩

theorem ordered_ofProgram (p : Program σ α) :
    (ofProgram p : LockProgram μ σ ℓ α).Ordered rank held held := by
  induction p with
  | done a => rfl
  | atomic update next ih => exact ih

/-- A critical section inside of others. -/
theorem Ordered.holding {m : μ} {p : LockProgram μ σ ℓ α} (hm : ∀ m' ∈ held, rank m' < rank m)
    (hp : p.Ordered rank (insert m held) (insert m held)) :
    (LockProgram.holding m p).Ordered rank held held := by
  refine ⟨hm, hp.bind fun a ↦ ⟨Finset.mem_insert_self m held, ?_⟩⟩
  exact Finset.erase_insert fun hmem ↦ lt_irrefl _ (hm m hmem)

end LockProgram

namespace LockConfig

open LockProgram

variable {τ κ μ σ ℓ : Type} {rank : μ → ℕ} {t u : τ} {c : LockConfig τ μ σ ℓ} {m : μ}
  {held : Finset μ}

/-- The thread holds exactly these mutexes. -/
def HoldsAll (c : LockConfig τ μ σ ℓ) (t : τ) (held : Finset μ) : Prop :=
  ∀ m, c.Holds t m ↔ m ∈ held

/-- A mutex has one holder. -/
theorem HoldsAll.disjoint {held' : Finset μ} (h : c.HoldsAll t held) (h' : c.HoldsAll u held')
    (htu : t ≠ u) (hm : m ∈ held) : m ∉ held' := by
  rw [← h m, Holds] at hm
  rw [← h' m, Holds, hm, Option.some_inj]
  exact htu

variable [DecidableEq μ]

/-- The invariant of all runs: every thread keeps the order, and its suspended programs will. -/
def OrderSound (rank : μ → ℕ) (c : LockConfig τ μ σ ℓ) : Prop :=
  ∀ t, ∃ held, c.HoldsAll t held ∧ (c.thread t).current.Ordered rank ∅ held ∧
    ∀ next ∈ (c.thread t).suspended, ∀ l, (next l).Ordered rank ∅ ∅

theorem orderSound_start (s : σ) (locals : τ → ℓ) :
    (start s locals : LockConfig τ μ σ ℓ).OrderSound rank :=
  fun _ ↦ ⟨∅, fun _ ↦ by simp [Holds, start], rfl, fun _ h ↦ absurd h List.not_mem_nil⟩

/-! ## No deadlock -/

namespace OrderSound

/-- What a waiting thread holds has a lower rank than what it waits for. -/
theorem rank_lt (h : c.OrderSound rank) {m' : μ} (hattempt : c.Attempts t m) (hholds : c.Holds t m') :
    rank m' < rank m := by
  obtain ⟨held, hheld, hcurrent, -⟩ := h t
  obtain ⟨next, hnext⟩ := attempted_eq_some.mp hattempt
  rw [hnext] at hcurrent
  exact hcurrent.1 m' ((hheld m').mp hholds)

/-- Along a chain of waiting threads the ranks ascend. -/
theorem rank_lt_of_transGen (h : c.OrderSound rank) (hchain : Relation.TransGen c.Waits t u) {m' : μ}
    (hu : c.Attempts u m') : ∃ m, c.Attempts t m ∧ rank m < rank m' := by
  induction hchain generalizing m' with
  | single hwaits =>
    obtain ⟨m, ht, hholds⟩ := hwaits
    exact ⟨m, ht, h.rank_lt hu hholds⟩
  | tail _ hwaits ih =>
    obtain ⟨m, hv, hholds⟩ := hwaits
    obtain ⟨m₀, ht, hlt⟩ := ih hv
    exact ⟨m₀, ht, hlt.trans (h.rank_lt hu hholds)⟩

/-- No chain of waiting threads comes back to where it began. -/
theorem not_transGen_waits (h : c.OrderSound rank) (t : τ) : ¬Relation.TransGen c.Waits t t := by
  intro hcycle
  obtain ⟨u, ⟨m, hattempt, -⟩, -⟩ := Relation.TransGen.head'_iff.mp hcycle
  obtain ⟨m', hattempt', hlt⟩ := h.rank_lt_of_transGen hcycle hattempt
  obtain rfl : m' = m := Option.some_inj.mp (hattempt'.symm.trans hattempt)
  exact lt_irrefl _ hlt

/-- If the ranks are bounded, every chain of waiting threads ends with one that waits for nobody. -/
theorem exists_unblocked (h : c.OrderSound rank) {n : ℕ} (hn : ∀ m, rank m < n) (t : τ) :
    ∃ u, Relation.ReflTransGen c.Waits t u ∧ ∀ v, ¬c.Waits u v := by
  -- by induction on how far the rank of the mutex that a thread waits for is below the bound
  have hwait : ∀ d t u m, n - rank m ≤ d → c.Attempts t m → c.Holds u m →
      ∃ v, Relation.ReflTransGen c.Waits t v ∧ ∀ w, ¬c.Waits v w := by
    intro d
    induction d with
    | zero =>
      intro t u m hd _ _
      have := hn m
      omega
    | succ d ih =>
      intro t u m hd hattempt hholds
      have hwaits : c.Waits t u := ⟨m, hattempt, hholds⟩
      by_cases hu : ∃ v, c.Waits u v
      · obtain ⟨v, m', hattempt', hholds'⟩ := hu
        have hlt : rank m < rank m' := h.rank_lt hattempt' hholds
        have := hn m'
        obtain ⟨w, hchain, hw⟩ := ih u v m' (by omega) hattempt' hholds'
        exact ⟨w, .head hwaits hchain, hw⟩
      · exact ⟨u, .single hwaits, not_exists.mp hu⟩
  by_cases ht : ∃ u, c.Waits t u
  · obtain ⟨u, m, hattempt, hholds⟩ := ht
    exact hwait _ t u m le_rfl hattempt hholds
  · exact ⟨t, .refl, not_exists.mp ht⟩

end OrderSound

variable [DecidableEq τ]

/-! ## What taking and giving back does to the holders -/

/-- The configuration after a thread has taken a mutex. -/
def taken (c : LockConfig τ μ σ ℓ) (t : τ) (m : μ) (stack : CallStack μ σ ℓ) : LockConfig τ μ σ ℓ :=
  { c.setThread t stack with holder := Function.update c.holder m (some t) }

/-- The configuration after a thread has given a mutex back. -/
def released (c : LockConfig τ μ σ ℓ) (t : τ) (m : μ) (stack : CallStack μ σ ℓ) :
    LockConfig τ μ σ ℓ :=
  { c.setThread t stack with holder := Function.update c.holder m none }

variable {stack : CallStack μ σ ℓ}

theorem HoldsAll.taken_self (h : c.HoldsAll t held) :
    (c.taken t m stack).HoldsAll t (insert m held) := by
  intro m'
  have hm' := h m'
  rw [Holds] at hm'
  by_cases hm : m' = m
  · subst hm
    simp [Holds, taken]
  · simp [Holds, taken, hm, hm']

theorem HoldsAll.taken_of_ne (h : c.HoldsAll u held) (hut : u ≠ t) (hfree : c.holder m = none) :
    (c.taken t m stack).HoldsAll u held := by
  intro m'
  have hm' := h m'
  rw [Holds] at hm'
  by_cases hm : m' = m
  · subst hm
    rw [← hm', Holds, taken]
    simp [hfree, Ne.symm hut]
  · simp [Holds, taken, hm, hm']

theorem HoldsAll.released_self (h : c.HoldsAll t held) :
    (c.released t m stack).HoldsAll t (held.erase m) := by
  intro m'
  have hm' := h m'
  rw [Holds] at hm'
  by_cases hm : m' = m
  · subst hm
    simp [Holds, released]
  · simp [Holds, released, hm, hm']

theorem HoldsAll.released_of_ne (h : c.HoldsAll u held) (hut : u ≠ t)
    (hmine : c.holder m = some t) : (c.released t m stack).HoldsAll u held := by
  intro m'
  have hm' := h m'
  rw [Holds] at hm'
  by_cases hm : m' = m
  · subst hm
    rw [← hm', Holds, released]
    simp [hmine, Ne.symm hut]
  · simp [Holds, released, hm, hm']

/-! ## Every run -/

namespace OrderSound

/-- A change to one thread, and to what it holds. -/
theorem update {c' : LockConfig τ μ σ ℓ} (h : c.OrderSound rank) {t : τ}
    (hthread : ∀ u ≠ t, c'.thread u = c.thread u)
    (hholds : ∀ u ≠ t, ∀ held, c.HoldsAll u held → c'.HoldsAll u held)
    (ht : ∃ held, c'.HoldsAll t held ∧ (c'.thread t).current.Ordered rank ∅ held ∧
      ∀ next ∈ (c'.thread t).suspended, ∀ l, (next l).Ordered rank ∅ ∅) :
    c'.OrderSound rank := by
  intro u
  by_cases hut : u = t
  · exact hut ▸ ht
  · obtain ⟨held, hheld, hcurrent, hsuspended⟩ := h u
    refine ⟨held, hholds u hut held hheld, ?_⟩
    rw [hthread u hut]
    exact ⟨hcurrent, hsuspended⟩

/-- A thread goes on without touching a mutex. -/
theorem setThread (h : c.OrderSound rank) {t : τ} {stack : CallStack μ σ ℓ} (s : σ)
    (ht : ∀ held, (c.thread t).current.Ordered rank ∅ held →
      (∀ next ∈ (c.thread t).suspended, ∀ l, (next l).Ordered rank ∅ ∅) →
      stack.current.Ordered rank ∅ held ∧ ∀ next ∈ stack.suspended, ∀ l, (next l).Ordered rank ∅ ∅) :
    ({ c.setThread t stack with shared := s }).OrderSound rank := by
  obtain ⟨held, hheld, hcurrent, hsuspended⟩ := h t
  refine h.update (t := t) (fun u hut ↦ Function.update_of_ne hut ..) (fun _ _ _ h ↦ h)
    ⟨held, hheld, ?_⟩
  simpa only [LockConfig.setThread, Function.update_self] using ht held hcurrent hsuspended

/-- One call keeps the invariant. -/
theorem call {code : τ → κ → ℓ → LockProgram μ σ ℓ ℓ}
    (hcode : ∀ t k l, (code t k l).Ordered rank ∅ ∅) (h : c.OrderSound rank) (t : τ) (k : κ) :
    (c.call code t k).OrderSound rank := by
  unfold LockConfig.call
  split
  case h_1 l ht =>
    refine h.setThread c.shared fun held hcurrent hsuspended ↦ ?_
    rw [ht] at hcurrent hsuspended
    obtain rfl : held = ∅ := hcurrent
    exact ⟨hcode t k l, hsuspended⟩
  case h_2 l next rest ht =>
    refine h.setThread c.shared fun held hcurrent hsuspended ↦ ?_
    rw [ht] at hcurrent hsuspended
    obtain ⟨rfl, hnext⟩ := hcurrent
    exact ⟨hcode t k l, List.forall_mem_cons.mpr ⟨hnext, hsuspended⟩⟩
  case h_3 => exact h

/-- One step keeps the invariant. -/
theorem step (h : c.OrderSound rank) (t : τ) : (c.step t).OrderSound rank := by
  unfold LockConfig.step
  split
  case h_1 => exact h
  case h_2 l next rest ht =>
    refine h.setThread c.shared fun held hcurrent hsuspended ↦ ?_
    rw [ht] at hcurrent hsuspended
    obtain rfl : held = ∅ := hcurrent
    obtain ⟨hnext, hrest⟩ := List.forall_mem_cons.mp hsuspended
    exact ⟨⟨rfl, hnext⟩, hrest⟩
  case h_3 update next rest ht =>
    refine h.setThread (update c.shared) fun held hcurrent hsuspended ↦ ?_
    rw [ht] at hcurrent hsuspended
    exact ⟨hcurrent c.shared, hsuspended⟩
  case h_4 m next rest ht =>
    split
    case isTrue hfree =>
      obtain ⟨held, hheld, hcurrent, hsuspended⟩ := h t
      rw [ht] at hcurrent hsuspended
      change (c.taken t m ⟨next, rest⟩).OrderSound rank
      refine h.update (t := t) (fun u hut ↦ Function.update_of_ne hut ..)
        (fun u hut held hu ↦ hu.taken_of_ne hut hfree) ⟨insert m held, hheld.taken_self, ?_⟩
      simpa only [taken, LockConfig.setThread, Function.update_self] using ⟨hcurrent.2, hsuspended⟩
    case isFalse => exact h
  case h_5 m next rest ht =>
    obtain ⟨held, hheld, hcurrent, hsuspended⟩ := h t
    rw [ht] at hcurrent hsuspended
    have hmine : c.holder m = some t := (hheld m).mpr hcurrent.1
    change (c.released t m ⟨next, rest⟩).OrderSound rank
    refine h.update (t := t) (fun u hut ↦ Function.update_of_ne hut ..)
      (fun u hut held hu ↦ hu.released_of_ne hut hmine) ⟨held.erase m, hheld.released_self, ?_⟩
    simpa only [released, LockConfig.setThread, Function.update_self] using ⟨hcurrent.2, hsuspended⟩
  case h_6 l next rest ht =>
    refine h.setThread c.shared fun held hcurrent hsuspended ↦ ?_
    rw [ht] at hcurrent hsuspended
    obtain ⟨rfl, hnext⟩ := hcurrent
    exact ⟨hnext l, hsuspended⟩

/-- A run keeps the invariant. -/
theorem run {code : τ → κ → ℓ → LockProgram μ σ ℓ ℓ}
    (hcode : ∀ t k l, (code t k l).Ordered rank ∅ ∅) (h : c.OrderSound rank)
    (ms : List (Move τ κ)) : (LockConfig.run code c ms).OrderSound rank := by
  induction ms generalizing c with
  | nil => exact h
  | cons m ms ih =>
    rcases m with ⟨t, k⟩ | t
    · exact ih (h.call hcode t k)
    · exact ih (h.step t)

end OrderSound

end LockConfig

end Concurrency
