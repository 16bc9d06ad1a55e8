import UnsafePerf.Concurrency.RelyGuarantee
import UnsafePerf.CpuCycle.Hooks
import Mathlib.Algebra.BigOperators.Group.Finset.Basic
import Mathlib.Algebra.Order.BigOperators.Group.Finset
import Mathlib.Data.Fintype.Basic
import Mathlib.Tactic.Ring

/-!
# Ownership of slots

The invariant behind every statement about the registry. A slot below `min nextSlot maxThreads` is
either terminated or held by exactly one thread, a slot from `nextSlot` on has never been touched,
and `nextSlot` is the number of slots taken plus the number of increments that are about to be
taken back.

Only the holder of a slot writes it, so between two of its own steps a thread finds its slot as it
left it. This is what a thread relies on, and what the honest steps below keep.

## The ledger

The invariant also balances the books: for each counter, what the slots show together with what
resets have overwritten is what the threads have added. The balance is stated for totals below
`2 ^ 64`, so it says in particular that no counter has wrapped.
-/

open Concurrency

namespace UnsafePerf.CpuCycle

variable {τ : Type}

/-! ## The books -/

namespace Shared

/-- What the slots show for a counter. -/
def slotTotal (s : Shared τ) (c : Counter) : ℕ :=
  ∑ k ∈ Finset.range maxThreads, ((s.threads k).counters c).toNat

/-- What the threads have added to a counter. -/
def accountedTotal [Fintype τ] (s : Shared τ) (c : Counter) : ℕ := ∑ t, s.history.accounted t c

/-- What one reset has overwritten of a counter. -/
def discardedOf (c : Counter) (e : ℕ × Counter × UInt64) : ℕ :=
  if e.2.1 = c then e.2.2.toNat else 0

/-- What resets have overwritten of a counter. -/
def discardedTotal (s : Shared τ) (c : Counter) : ℕ :=
  (s.history.discarded.map (discardedOf c)).sum

/-- The balance of one counter. -/
def Balanced [Fintype τ] (s : Shared τ) (c : Counter) : Prop :=
  s.accountedTotal c < 2 ^ 64 → s.slotTotal c + s.discardedTotal c = s.accountedTotal c

theorem slotTotal_update (s s' : Shared τ) {k : ℕ} {st : ThreadStats} (hk : k < maxThreads)
    (hthreads : s'.threads = Function.update s.threads k st) (c : Counter) :
    s'.slotTotal c + ((s.threads k).counters c).toNat
      = s.slotTotal c + (st.counters c).toNat := by
  have hmem : k ∈ Finset.range maxThreads := Finset.mem_range.mpr hk
  have hrest : ∑ j ∈ (Finset.range maxThreads).erase k, ((s'.threads j).counters c).toNat
      = ∑ j ∈ (Finset.range maxThreads).erase k, ((s.threads j).counters c).toNat := by
    refine Finset.sum_congr rfl fun j hj ↦ ?_
    rw [hthreads, Function.update_of_ne (Finset.ne_of_mem_erase hj)]
  rw [slotTotal, slotTotal, ← Finset.add_sum_erase _ _ hmem, ← Finset.add_sum_erase _ _ hmem,
    hrest, hthreads, Function.update_self]
  ring

theorem accountedTotal_noteAccounted [Fintype τ] [DecidableEq τ] (s : Shared τ) (t : τ) (c c' : Counter)
    (d : UInt64) :
    (s.noteAccounted t c d).accountedTotal c'
      = s.accountedTotal c' + if c' = c then d.toNat else 0 := by
  have hrest : ∑ u ∈ Finset.univ.erase t, (s.noteAccounted t c d).history.accounted u c'
      = ∑ u ∈ Finset.univ.erase t, s.history.accounted u c' := by
    refine Finset.sum_congr rfl fun u hu ↦ ?_
    simp only [noteAccounted, Function.update_of_ne (Finset.ne_of_mem_erase hu)]
  have hself : (s.noteAccounted t c d).history.accounted t c'
      = s.history.accounted t c' + if c' = c then d.toNat else 0 := by
    simp only [noteAccounted, Function.update_self]
    by_cases hc : c' = c
    · subst hc
      rw [Function.update_self, if_pos rfl]
    · rw [Function.update_of_ne hc, if_neg hc, add_zero]
  rw [accountedTotal, accountedTotal, ← Finset.add_sum_erase _ _ (Finset.mem_univ t),
    ← Finset.add_sum_erase _ _ (Finset.mem_univ t), hrest, hself]
  ring

theorem discardedTotal_noteDiscarded (s : Shared τ) (k : ℕ) (c c' : Counter) :
    (s.noteDiscarded k c).discardedTotal c'
      = s.discardedTotal c' + if c' = c then ((s.threads k).counters c).toNat else 0 := by
  rw [discardedTotal, discardedTotal, noteDiscarded, List.map_append, List.sum_append,
    List.map_singleton, List.sum_singleton, discardedOf]
  by_cases hc : c' = c
  · rw [if_pos hc, if_pos hc.symm]
  · rw [if_neg hc, if_neg (Ne.symm hc)]

end Shared

/-! ## The invariant -/

/-- The invariant of the registry. -/
structure Inv [Fintype τ] (s : Shared τ) : Prop where
  /-- No slot has two holders. -/
  holds_inj : ∀ t u k, s.history.holds t = some k → s.history.holds u = some k → t = u
  /-- A held slot lies in the part of the array the final scan covers. -/
  holds_lt : ∀ t k, s.history.holds t = some k → k < min s.nextSlot maxThreads
  /-- A held slot is not up for reuse. -/
  holds_state : ∀ t k, s.history.holds t = some k → (s.threads k).state ≠ .terminated
  /-- A slot in use that nobody holds is terminated. -/
  unheld : ∀ k < min s.nextSlot maxThreads, (∀ t, s.history.holds t ≠ some k) →
    (s.threads k).state = .terminated
  /-- From `nextSlot` on the array has never been touched. -/
  fresh : ∀ k, min s.nextSlot maxThreads ≤ k → s.threads k = .new
  /-- `nextSlot` counts the slots taken and the increments to be taken back; the latter exist only
  when the array is full. -/
  next : ∃ taken ≤ maxThreads, s.nextSlot = taken + s.history.overshoot.card ∧
    (s.history.overshoot.Nonempty → taken = maxThreads)
  /-- No thread has been given two slots. -/
  granted_nodup : (s.history.granted.map Prod.fst).Nodup
  /-- Every slot ever handed out is in the part of the array the final scan covers. -/
  granted_lt : ∀ t k, (t, k) ∈ s.history.granted → k < min s.nextSlot maxThreads
  /-- A thread holds only a slot it was given. -/
  holds_granted : ∀ t k, s.history.holds t = some k → (t, k) ∈ s.history.granted
  /-- Nobody has been given a slot since the thread that holds it. -/
  holds_owner : ∀ t k, s.history.holds t = some k → s.history.owner k = some t
  /-- Every slot became active with all counters zero. -/
  activated_zero : ∀ e ∈ s.history.activated, ∀ c, e.2 c = 0
  /-- The books balance. -/
  balanced : ∀ c, s.Balanced c

/-- What a thread relies on: the others leave its part of the history and its slot alone, the
latter until the slot is handed on. -/
structure Rely (t : τ) (s s' : Shared τ) : Prop where
  holds : s'.history.holds t = s.history.holds t
  overshoot : t ∈ s'.history.overshoot ↔ t ∈ s.history.overshoot
  granted : ∀ k, (t, k) ∈ s'.history.granted ↔ (t, k) ∈ s.history.granted
  slot : ∀ k, s.history.holds t = some k → s'.threads k = s.threads k
  left : ∀ k, s'.history.owner k = some t →
    s.history.owner k = some t ∧ s'.threads k = s.threads k

/-- The contract of the registry. -/
def contract [Fintype τ] : Contract τ (Shared τ) where
  inv := Inv
  rely := Rely
  rely_refl _ _ := ⟨rfl, Iff.rfl, fun _ ↦ Iff.rfl, fun _ _ ↦ rfl, fun _ h ↦ ⟨h, rfl⟩⟩
  rely_trans h₁ h₂ := ⟨h₂.holds.trans h₁.holds, h₂.overshoot.trans h₁.overshoot,
    fun k ↦ (h₂.granted k).trans (h₁.granted k),
    fun k hk ↦ (h₂.slot k (h₁.holds.trans hk)).trans (h₁.slot k hk),
    fun k hk ↦ ⟨(h₁.left k (h₂.left k hk).1).1,
      (h₂.left k hk).2.trans (h₁.left k (h₂.left k hk).1).2⟩⟩

theorem Inv.new [Fintype τ] : Inv (Shared.new : Shared τ) where
  holds_inj _ _ _ h := absurd h (by simp [Shared.new])
  holds_lt _ _ h := absurd h (by simp [Shared.new])
  holds_state _ _ h := absurd h (by simp [Shared.new])
  unheld k hk := absurd hk (by simp [Shared.new])
  fresh _ _ := rfl
  next := ⟨0, Nat.zero_le _, rfl, fun h ↦ absurd h (by simp [Shared.new])⟩
  granted_nodup := List.nodup_nil
  granted_lt _ _ h := absurd h (by simp [Shared.new])
  holds_granted _ _ h := absurd h (by simp [Shared.new])
  holds_owner _ _ h := absurd h (by simp [Shared.new])
  activated_zero _ h := absurd h (by simp [Shared.new])
  balanced c _ := by
    simp [Shared.slotTotal, Shared.discardedTotal, Shared.accountedTotal, Shared.new,
      ThreadStats.new]

/-! ## Holding a slot and holding none -/

/-- The thread holds slot `k`, whose contents are `st`. -/
structure Holding (t : τ) (k : ℕ) (st : ThreadStats) (s : Shared τ) : Prop where
  holds : s.history.holds t = some k
  stats : s.threads k = st
  settled : t ∉ s.history.overshoot

/-- The thread has given up slot `k`, and its contents stay `st` until the slot is handed on. -/
structure Left (t : τ) (k : ℕ) (st : ThreadStats) (s : Shared τ) : Prop where
  holds : s.history.holds t = none
  stats : s.history.owner k = some t → s.threads k = st

/-- The thread has never been given a slot, and is not in the middle of taking one. -/
structure Slotless (t : τ) (s : Shared τ) : Prop where
  holds : s.history.holds t = none
  granted : ∀ k, (t, k) ∉ s.history.granted
  settled : t ∉ s.history.overshoot

/-- The thread has incremented `nextSlot` past the array and has to take it back. -/
structure Overshooting (t : τ) (s : Shared τ) : Prop where
  holds : s.history.holds t = none
  granted : ∀ k, (t, k) ∉ s.history.granted
  pending : t ∈ s.history.overshoot

theorem Holding.rely {t : τ} {k : ℕ} {st : ThreadStats} {s s' : Shared τ}
    (h : Holding t k st s) (hr : Rely t s s') : Holding t k st s' where
  holds := hr.holds.trans h.holds
  stats := (hr.slot k h.holds).trans h.stats
  settled := fun hmem ↦ h.settled (hr.overshoot.mp hmem)

theorem Left.rely {t : τ} {k : ℕ} {st : ThreadStats} {s s' : Shared τ} (h : Left t k st s)
    (hr : Rely t s s') : Left t k st s' where
  holds := hr.holds.trans h.holds
  stats := fun howner ↦ (hr.left k howner).2.trans (h.stats (hr.left k howner).1)

theorem Slotless.rely {t : τ} {s s' : Shared τ} (h : Slotless t s) (hr : Rely t s s') :
    Slotless t s' where
  holds := hr.holds.trans h.holds
  granted := fun k hmem ↦ h.granted k ((hr.granted k).mp hmem)
  settled := fun hmem ↦ h.settled (hr.overshoot.mp hmem)

theorem Overshooting.rely {t : τ} {s s' : Shared τ} (h : Overshooting t s) (hr : Rely t s s') :
    Overshooting t s' where
  holds := hr.holds.trans h.holds
  granted := fun k hmem ↦ h.granted k ((hr.granted k).mp hmem)
  pending := hr.overshoot.mpr h.pending

/-! ## Handing out a slot -/

section Granting

variable [DecidableEq τ]

/-- The thread is handed slot `k`, which nobody holds, whichever way it was found. -/
structure Grants (t : τ) (k : ℕ) (s s' : Shared τ) : Prop where
  history : s'.history = (s.grant t k).history
  unheld : ∀ u, s.history.holds u ≠ some k
  other : ∀ j, j ≠ k → s'.threads j = s.threads j
  state : (s'.threads k).state ≠ .terminated
  counters : (s'.threads k).counters = (s.threads k).counters
  cover : ∀ j, j < min s'.nextSlot maxThreads ↔ j < min s.nextSlot maxThreads ∨ j = k
  next : ∃ taken ≤ maxThreads, s'.nextSlot = taken + s.history.overshoot.card ∧
    (s.history.overshoot.Nonempty → taken = maxThreads)

namespace Grants

variable {t : τ} {k : ℕ} {s s' : Shared τ}

theorem holds_iff (h : Grants t k s s') {u : τ} {j : ℕ} :
    s'.history.holds u = some j ↔ u = t ∧ j = k ∨ u ≠ t ∧ s.history.holds u = some j := by
  rw [h.history]
  change Function.update s.history.holds t (some k) u = some j ↔ _
  rw [Function.update_apply]
  by_cases hu : u = t
  · rw [if_pos hu, Option.some_inj]
    simp [hu, eq_comm]
  · rw [if_neg hu]
    simp [hu]

theorem mem_granted_iff (h : Grants t k s s') {u : τ} {j : ℕ} :
    (u, j) ∈ s'.history.granted ↔ (u, j) ∈ s.history.granted ∨ u = t ∧ j = k := by
  rw [h.history, Shared.grant, List.mem_append, List.mem_singleton, Prod.mk.injEq]

theorem owner_eq (h : Grants t k s s') (j : ℕ) :
    s'.history.owner j = if j = k then some t else s.history.owner j := by
  rw [h.history]
  exact Function.update_apply ..

theorem overshoot_eq (h : Grants t k s s') : s'.history.overshoot = s.history.overshoot := by
  rw [h.history, Shared.grant]

theorem holds_self (h : Grants t k s s') : s'.history.holds t = some k :=
  h.holds_iff.mpr (.inl ⟨rfl, rfl⟩)

theorem lt_mono (h : Grants t k s s') {j : ℕ} (hj : j < min s.nextSlot maxThreads) :
    j < min s'.nextSlot maxThreads := (h.cover j).mpr (.inl hj)

theorem lt_self (h : Grants t k s s') : k < min s'.nextSlot maxThreads := (h.cover k).mpr (.inr rfl)

/-- The other threads find their slots as they left them. -/
theorem rely (h : Grants t k s s') {u : τ} (hu : u ≠ t) : Rely u s s' where
  holds := by
    rw [h.history, Shared.grant]
    exact Function.update_of_ne hu ..
  overshoot := by rw [h.overshoot_eq]
  granted j := by
    rw [h.mem_granted_iff]
    exact or_iff_left fun hnew ↦ hu hnew.1
  slot j hj := by
    refine h.other j ?_
    rintro rfl
    exact h.unheld u hj
  left j hj := by
    rw [h.owner_eq] at hj
    by_cases hjk : j = k
    · rw [if_pos hjk, Option.some_inj] at hj
      exact absurd hj.symm hu
    · rw [if_neg hjk] at hj
      exact ⟨hj, h.other j hjk⟩

end Grants

end Granting

/-! ## Honest steps

Each atomic step that writes is honest under the condition the code takes it in. -/

section HonestSteps

variable [Fintype τ] {t : τ} {k : ℕ} {st : ThreadStats} {s : Shared τ}

/-- A slot last handed to another thread is not the one this thread holds. -/
theorem Inv.ne_of_owner (hi : Inv s) (hh : Holding t k st s) {u : τ} {j : ℕ}
    (hj : s.history.owner j = some u) (hu : u ≠ t) : j ≠ k := by
  rintro rfl
  exact hu (Option.some.inj (hj.symm.trans (hi.holds_owner t j hh.holds)))

/-- **Writing one's own slot** is honest, whatever is written, if the slot stays out of reuse and
the books balance afterwards. -/
theorem honest_write {s' : Shared τ} {st' : ThreadStats} (hi : Inv s) (hh : Holding t k st s)
    (hthreads : s'.threads = Function.update s.threads k st') (hnext : s'.nextSlot = s.nextSlot)
    (hholds : s'.history.holds = s.history.holds)
    (hover : s'.history.overshoot = s.history.overshoot)
    (hgranted : s'.history.granted = s.history.granted)
    (howner : s'.history.owner = s.history.owner)
    (hstate : st'.state ≠ .terminated)
    (hactive : ∀ e ∈ s'.history.activated, ∀ c, e.2 c = 0)
    (hbalanced : ∀ c, s'.Balanced c) :
    contract.Honest t s s' ∧ Holding t k st' s' := by
  have hother : ∀ j, j ≠ k → s'.threads j = s.threads j := by
    intro j hj
    rw [hthreads, Function.update_of_ne hj]
  have hself : s'.threads k = st' := by rw [hthreads, Function.update_self]
  have hk := hi.holds_lt t k hh.holds
  refine ⟨⟨?_, fun u hu ↦ ?_⟩, ⟨by rw [hholds, hh.holds], hself, by rw [hover]; exact hh.settled⟩⟩
  · constructor
    case holds_inj => rw [hholds]; exact hi.holds_inj
    case holds_lt => rw [hholds, hnext]; exact hi.holds_lt
    case holds_state =>
      intro u j hj
      rw [hholds] at hj
      by_cases hjk : j = k
      · subst hjk
        rw [hself]
        exact hstate
      · rw [hother j hjk]
        exact hi.holds_state u j hj
    case unheld =>
      intro j hj hnone
      rw [hholds] at hnone
      rw [hnext] at hj
      have hjk : j ≠ k := by
        rintro rfl
        exact hnone t hh.holds
      rw [hother j hjk]
      exact hi.unheld j hj hnone
    case fresh =>
      intro j hj
      rw [hnext] at hj
      have hjk : j ≠ k := by omega
      rw [hother j hjk]
      exact hi.fresh j hj
    case next => rw [hnext, hover]; exact hi.next
    case granted_nodup => rw [hgranted]; exact hi.granted_nodup
    case granted_lt => rw [hgranted, hnext]; exact hi.granted_lt
    case holds_granted => rw [hholds, hgranted]; exact hi.holds_granted
    case holds_owner => rw [hholds, howner]; exact hi.holds_owner
    case activated_zero => exact hactive
    case balanced => exact hbalanced
  · refine ⟨by rw [hholds], by rw [hover], fun j ↦ by rw [hgranted], fun j hj ↦ ?_, fun j hj ↦ ?_⟩
    · have hjk : j ≠ k := by
        rintro rfl
        exact hu (hi.holds_inj u t j hj hh.holds)
      exact hother j hjk
    · rw [howner] at hj
      exact ⟨hj, hother j (hi.ne_of_owner hh hj hu)⟩

/-- A change that touches no counter and no amount keeps the books balanced. -/
theorem Inv.balanced_of_eq {s' : Shared τ} (hi : Inv s)
    (hslot : ∀ c, s'.slotTotal c = s.slotTotal c)
    (haccounted : s'.history.accounted = s.history.accounted)
    (hdiscarded : s'.history.discarded = s.history.discarded) (c : Counter) : s'.Balanced c := by
  have h := hi.balanced c
  rw [Shared.Balanced, Shared.accountedTotal, Shared.discardedTotal] at h ⊢
  rw [haccounted, hdiscarded, hslot]
  exact h

/-- A store to a field other than a counter. -/
theorem honest_storeField {f : ThreadStats → ThreadStats} (hi : Inv s) (hh : Holding t k st s)
    (hcounters : (f st).counters = st.counters) (hstate : (f st).state ≠ .terminated) :
    contract.Honest t s (s.setStats k (f (s.threads k))) ∧
      Holding t k (f st) (s.setStats k (f (s.threads k))) := by
  rw [hh.stats]
  refine honest_write hi hh rfl rfl rfl rfl rfl rfl hstate hi.activated_zero ?_
  refine hi.balanced_of_eq (fun c ↦ ?_) rfl rfl
  have hk := hi.holds_lt t k hh.holds
  have h := Shared.slotTotal_update s (s.setStats k (f st)) (k := k) (by omega) rfl c
  rw [hcounters, hh.stats] at h
  omega

/-- The store that makes a slot active, when its counters are zero. -/
theorem honest_storeActive (hi : Inv s) (hh : Holding t k st s) (hzero : ∀ c, st.counters c = 0) :
    contract.Honest t s
        ((s.noteActive k).setStats k { s.threads k with state := .active }) ∧
      Holding t k { st with state := .active }
        ((s.noteActive k).setStats k { s.threads k with state := .active }) := by
  rw [hh.stats]
  refine honest_write hi hh rfl rfl rfl rfl rfl rfl (by simp) ?_ ?_
  · intro e he
    rcases List.mem_append.mp he with h | h
    · exact hi.activated_zero e h
    · rw [List.mem_singleton.mp h, hh.stats]
      exact hzero
  · refine hi.balanced_of_eq (fun c ↦ ?_) rfl rfl
    have hk := hi.holds_lt t k hh.holds
    have h := Shared.slotTotal_update s
      ((s.noteActive k).setStats k { st with state := .active }) (k := k) (by omega) rfl c
    rw [hh.stats] at h
    exact Nat.add_right_cancel h

/-- A counter reset: what it overwrites goes into the books. -/
theorem honest_resetCounter (hi : Inv s) (hh : Holding t k st s) (c : Counter) :
    contract.Honest t s ((s.noteDiscarded k c).setStats k ((s.threads k).clear c)) ∧
      Holding t k (st.clear c) ((s.noteDiscarded k c).setStats k ((s.threads k).clear c)) := by
  rw [hh.stats]
  have hstate : st.state ≠ .terminated := hh.stats ▸ hi.holds_state t k hh.holds
  refine honest_write hi hh rfl rfl rfl rfl rfl rfl hstate hi.activated_zero fun c' hlt ↦ ?_
  have hk := hi.holds_lt t k hh.holds
  have hslot := Shared.slotTotal_update s
    ((s.noteDiscarded k c).setStats k (st.clear c)) (k := k) (by omega) rfl c'
  have hdiscarded := s.discardedTotal_noteDiscarded k c c'
  have hbal := hi.balanced c' hlt
  rw [hh.stats] at hslot hdiscarded
  change _ + (s.noteDiscarded k c).discardedTotal c' = s.accountedTotal c'
  by_cases hc : c' = c
  · subst hc
    rw [if_pos rfl] at hdiscarded
    rw [st.clear_counters_self, UInt64.toNat_zero] at hslot
    omega
  · rw [if_neg hc] at hdiscarded
    rw [st.clear_counters_of_ne hc] at hslot
    omega

variable [DecidableEq τ]

/-- Adding to a counter: the amount goes into the books. While the total is below `2 ^ 64` the
counter cannot wrap, because it is part of the total. -/
theorem honest_fetchAddCounter (hi : Inv s) (hh : Holding t k st s) (c : Counter) (d : UInt64) :
    contract.Honest t s ((s.noteAccounted t c d).setStats k ((s.threads k).add c d)) ∧
      Holding t k (st.add c d) ((s.noteAccounted t c d).setStats k ((s.threads k).add c d)) := by
  rw [hh.stats]
  have hstate : st.state ≠ .terminated := hh.stats ▸ hi.holds_state t k hh.holds
  refine honest_write hi hh rfl rfl rfl rfl rfl rfl hstate hi.activated_zero fun c' hlt ↦ ?_
  have hk := hi.holds_lt t k hh.holds
  have hslot := Shared.slotTotal_update s
    ((s.noteAccounted t c d).setStats k (st.add c d)) (k := k) (by omega) rfl c'
  have haccounted := s.accountedTotal_noteAccounted t c c' d
  change (s.noteAccounted t c d).accountedTotal c' < 2 ^ 64 at hlt
  change _ + s.discardedTotal c' = (s.noteAccounted t c d).accountedTotal c'
  rw [hh.stats] at hslot
  rw [haccounted] at hlt ⊢
  have hbal := hi.balanced c' (by omega)
  by_cases hc : c' = c
  · subst hc
    rw [if_pos rfl] at hlt ⊢
    have hpart : (st.counters c').toNat ≤ s.slotTotal c' := by
      rw [← hh.stats]
      exact Finset.single_le_sum (f := fun j ↦ ((s.threads j).counters c').toNat)
        (fun _ _ ↦ Nat.zero_le _) (Finset.mem_range.mpr (by omega))
    have hadd : ((st.add c' d).counters c').toNat = (st.counters c').toNat + d.toNat := by
      rw [st.add_counters_self, UInt64.toNat_add, Nat.mod_eq_of_lt (by omega)]
    omega
  · rw [if_neg hc] at hlt ⊢
    rw [st.add_counters_of_ne d hc] at hslot
    omega

namespace Grants

variable {s' : Shared τ}

theorem holds_inj (h : Grants t k s s') (hi : Inv s) {u v : τ} {j : ℕ}
    (hu : s'.history.holds u = some j) (hv : s'.history.holds v = some j) : u = v := by
  rcases h.holds_iff.mp hu with ⟨rfl, rfl⟩ | ⟨hut, hu⟩
  · rcases h.holds_iff.mp hv with ⟨rfl, -⟩ | ⟨hvt, hv⟩
    · rfl
    · exact absurd hv (h.unheld v)
  · rcases h.holds_iff.mp hv with ⟨rfl, rfl⟩ | ⟨hvt, hv⟩
    · exact absurd hu (h.unheld u)
    · exact hi.holds_inj u v j hu hv

theorem holds_lt (h : Grants t k s s') (hi : Inv s) {u : τ} {j : ℕ}
    (hu : s'.history.holds u = some j) : j < min s'.nextSlot maxThreads := by
  rcases h.holds_iff.mp hu with ⟨-, rfl⟩ | ⟨-, hu⟩
  · exact h.lt_self
  · exact h.lt_mono (hi.holds_lt u j hu)

theorem holds_state (h : Grants t k s s') (hi : Inv s) {u : τ} {j : ℕ}
    (hu : s'.history.holds u = some j) : (s'.threads j).state ≠ .terminated := by
  rcases h.holds_iff.mp hu with ⟨-, rfl⟩ | ⟨-, hu⟩
  · exact h.state
  · have hjk : j ≠ k := by
      rintro rfl
      exact h.unheld u hu
    rw [h.other j hjk]
    exact hi.holds_state u j hu

/-- A slot in use that nobody holds afterwards was one before. -/
theorem state_of_unheld (h : Grants t k s s') (hi : Inv s) (hfree : Slotless t s) {j : ℕ}
    (hj : j < min s'.nextSlot maxThreads) (hnone : ∀ u, s'.history.holds u ≠ some j) :
    (s'.threads j).state = .terminated := by
  have hjk : j ≠ k := by
    rintro rfl
    exact hnone t h.holds_self
  rw [h.other j hjk]
  refine hi.unheld j (((h.cover j).mp hj).resolve_right hjk) fun u hu ↦ ?_
  have hut : u ≠ t := by
    rintro rfl
    rw [hfree.holds] at hu
    exact absurd hu (by simp)
  exact hnone u (h.holds_iff.mpr (.inr ⟨hut, hu⟩))

theorem fresh (h : Grants t k s s') (hi : Inv s) {j : ℕ}
    (hj : min s'.nextSlot maxThreads ≤ j) : s'.threads j = .new := by
  have hjk : j ≠ k := by
    rintro rfl
    exact absurd h.lt_self (not_lt.mpr hj)
  rw [h.other j hjk]
  exact hi.fresh j (not_lt.mp fun hlt ↦ absurd (h.lt_mono hlt) (not_lt.mpr hj))

/-- A thread without a slot has never been given one. -/
theorem granted_nodup (h : Grants t k s s') (hi : Inv s) (hfree : Slotless t s) :
    (s'.history.granted.map Prod.fst).Nodup := by
  rw [h.history, Shared.grant, List.map_append, List.map_singleton, List.nodup_append]
  refine ⟨hi.granted_nodup, List.nodup_singleton _, fun u hu v hv ↦ ?_⟩
  obtain ⟨⟨u', j⟩, hmem, rfl⟩ := List.mem_map.mp hu
  rintro rfl
  rw [List.mem_singleton] at hv
  cases hv
  exact hfree.granted j hmem

theorem granted_lt (h : Grants t k s s') (hi : Inv s) {u : τ} {j : ℕ}
    (hmem : (u, j) ∈ s'.history.granted) : j < min s'.nextSlot maxThreads := by
  rcases h.mem_granted_iff.mp hmem with hold | ⟨-, rfl⟩
  · exact h.lt_mono (hi.granted_lt u j hold)
  · exact h.lt_self

theorem holds_granted (h : Grants t k s s') (hi : Inv s) {u : τ} {j : ℕ}
    (hu : s'.history.holds u = some j) : (u, j) ∈ s'.history.granted := by
  refine h.mem_granted_iff.mpr ?_
  rcases h.holds_iff.mp hu with hnew | ⟨-, hu⟩
  · exact .inr hnew
  · exact .inl (hi.holds_granted u j hu)

theorem holds_owner (h : Grants t k s s') (hi : Inv s) {u : τ} {j : ℕ}
    (hu : s'.history.holds u = some j) : s'.history.owner j = some u := by
  rw [h.owner_eq]
  rcases h.holds_iff.mp hu with ⟨rfl, rfl⟩ | ⟨-, hu⟩
  · exact if_pos rfl
  · rw [if_neg, hi.holds_owner u j hu]
    rintro rfl
    exact h.unheld u hu

/-- The slot keeps its counters, so the books stay balanced. -/
theorem balanced (h : Grants t k s s') (hi : Inv s) (c : Counter) : s'.Balanced c := by
  refine hi.balanced_of_eq (fun c ↦ ?_) (by rw [h.history, Shared.grant])
    (by rw [h.history, Shared.grant]) c
  refine Finset.sum_congr rfl fun j _ ↦ ?_
  by_cases hjk : j = k
  · rw [hjk, h.counters]
  · rw [h.other j hjk]

theorem inv (h : Grants t k s s') (hi : Inv s) (hfree : Slotless t s) : Inv s' where
  holds_inj _ _ _ hu hv := h.holds_inj hi hu hv
  holds_lt _ _ hu := h.holds_lt hi hu
  holds_state _ _ hu := h.holds_state hi hu
  unheld _ hj hnone := h.state_of_unheld hi hfree hj hnone
  fresh _ hj := h.fresh hi hj
  next := by
    rw [h.overshoot_eq]
    exact h.next
  granted_nodup := h.granted_nodup hi hfree
  granted_lt _ _ hmem := h.granted_lt hi hmem
  holds_granted _ _ hu := h.holds_granted hi hu
  holds_owner _ _ hu := h.holds_owner hi hu
  activated_zero := by
    rw [h.history, Shared.grant]
    exact hi.activated_zero
  balanced c := h.balanced hi c

end Grants

/-- **Taking a slot** nobody holds is honest. -/
theorem Grants.honest {s' : Shared τ} (h : Grants t k s s') (hi : Inv s) (hfree : Slotless t s) :
    contract.Honest t s s' ∧ Holding t k (s'.threads k) s' :=
  ⟨⟨h.inv hi hfree, fun _ hu ↦ h.rely hu⟩, h.holds_self, rfl, h.overshoot_eq ▸ hfree.settled⟩

/-- Claiming a terminated slot. -/
theorem honest_claim (hi : Inv s) (hfree : Slotless t s) (hk : k < min s.nextSlot maxThreads)
    (hterm : (s.threads k).state = .terminated) :
    contract.Honest t s
        ((s.setStats k { s.threads k with state := .uninitialized }).grant t k) ∧
      Holding t k { s.threads k with state := .uninitialized }
        ((s.setStats k { s.threads k with state := .uninitialized }).grant t k) := by
  set s' := (s.setStats k { s.threads k with state := .uninitialized }).grant t k with hs'
  have hself : s'.threads k = { s.threads k with state := .uninitialized } :=
    Function.update_self ..
  have hunheld : ∀ u, s.history.holds u ≠ some k := fun u hu ↦ hi.holds_state u k hu hterm
  have hcover : ∀ j, j < min s'.nextSlot maxThreads ↔ j < min s.nextSlot maxThreads ∨ j = k :=
    fun j ↦ ⟨Or.inl, fun h ↦ h.elim id fun h ↦ h ▸ hk⟩
  rw [← hself]
  exact Grants.honest
    { history := rfl
      unheld := hunheld
      other := fun j hj ↦ Function.update_of_ne hj ..
      state := by rw [hself]; simp
      counters := by rw [hself]
      cover := hcover
      next := hi.next } hi hfree

/-- Taking a fresh slot. -/
theorem honest_takeFresh (hi : Inv s) (hfree : Slotless t s) (hlt : s.nextSlot < maxThreads) :
    contract.Honest t s ({ s with nextSlot := s.nextSlot + 1 }.grant t s.nextSlot) ∧
      Holding t s.nextSlot .new ({ s with nextSlot := s.nextSlot + 1 }.grant t s.nextSlot) := by
  set s' := { s with nextSlot := s.nextSlot + 1 }.grant t s.nextSlot with hs'
  have hself : s'.threads s.nextSlot = .new := hi.fresh s.nextSlot (min_le_left _ _)
  have hunheld : ∀ u, s.history.holds u ≠ some s.nextSlot := by
    intro u hu
    have := hi.holds_lt u _ hu
    omega
  have hnext' : s'.nextSlot = s.nextSlot + 1 := rfl
  have hcover : ∀ j, j < min s'.nextSlot maxThreads ↔
      j < min s.nextSlot maxThreads ∨ j = s.nextSlot := by
    intro j
    rw [hnext']
    omega
  have hnext : ∃ taken ≤ maxThreads, s'.nextSlot = taken + s.history.overshoot.card ∧
      (s.history.overshoot.Nonempty → taken = maxThreads) := by
    obtain ⟨taken, hle, heq, hfull⟩ := hi.next
    have hempty : ¬s.history.overshoot.Nonempty := by
      intro h
      have := hfull h
      omega
    have hcard : s.history.overshoot.card = 0 := by
      rw [Finset.card_eq_zero, ← Finset.not_nonempty_iff_eq_empty]
      exact hempty
    exact ⟨taken + 1, by omega, by omega, fun h ↦ absurd h hempty⟩
  rw [← hself]
  exact Grants.honest
    { history := rfl
      unheld := hunheld
      other := fun _ _ ↦ rfl
      state := by rw [hself]; simp [ThreadStats.new]
      counters := rfl
      cover := hcover
      next := hnext } hi hfree

omit [DecidableEq τ] in
/-- A change of `nextSlot` and of the pending increments alone is honest, if the array in use stays
the same and the count stays right. -/
theorem honest_count {s' : Shared τ} (hi : Inv s) (hthreads : s'.threads = s.threads)
    (hhistory : s'.history = { s.history with overshoot := s'.history.overshoot })
    (hover : ∀ u, u ≠ t → (u ∈ s'.history.overshoot ↔ u ∈ s.history.overshoot))
    (hmin : min s'.nextSlot maxThreads = min s.nextSlot maxThreads)
    (hnext : s'.nextSlot = maxThreads + s'.history.overshoot.card) :
    contract.Honest t s s' := by
  have hholds : s'.history.holds = s.history.holds := by rw [hhistory]
  have hgranted : s'.history.granted = s.history.granted := by rw [hhistory]
  refine ⟨?_, fun u hu ↦ ?_⟩
  · constructor
    case holds_inj => rw [hholds]; exact hi.holds_inj
    case holds_lt => rw [hholds, hmin]; exact hi.holds_lt
    case holds_state => rw [hholds, hthreads]; exact hi.holds_state
    case unheld => rw [hholds, hmin, hthreads]; exact hi.unheld
    case fresh => rw [hmin, hthreads]; exact hi.fresh
    case next => exact ⟨maxThreads, le_rfl, hnext, fun _ ↦ rfl⟩
    case granted_nodup => rw [hgranted]; exact hi.granted_nodup
    case granted_lt => rw [hgranted, hmin]; exact hi.granted_lt
    case holds_granted => rw [hholds, hgranted]; exact hi.holds_granted
    case holds_owner => rw [hhistory]; exact hi.holds_owner
    case activated_zero => rw [hhistory]; exact hi.activated_zero
    case balanced =>
      refine hi.balanced_of_eq (fun c ↦ ?_) (by rw [hhistory]) (by rw [hhistory])
      rw [Shared.slotTotal, Shared.slotTotal, hthreads]
  · refine ⟨by rw [hholds], hover u hu, fun j ↦ by rw [hgranted], fun j _ ↦ by rw [hthreads],
      fun j hj ↦ ⟨?_, by rw [hthreads]⟩⟩
    rwa [hhistory] at hj

/-- Incrementing `nextSlot` past the array. -/
theorem honest_overshoot (hi : Inv s) (hfree : Slotless t s) (hge : ¬s.nextSlot < maxThreads) :
    let s' := { s with
      nextSlot := s.nextSlot + 1
      history := { s.history with overshoot := insert t s.history.overshoot } }
    contract.Honest t s s' ∧ Overshooting t s' := by
  obtain ⟨taken, hle, heq, hfull⟩ := hi.next
  have htaken : taken = maxThreads := by
    rcases s.history.overshoot.eq_empty_or_nonempty with h | h
    · rw [h, Finset.card_empty] at heq
      omega
    · exact hfull h
  have hcard := Finset.card_insert_of_notMem hfree.settled
  refine ⟨honest_count hi rfl rfl (fun u hu ↦ ?_) ?_ ?_,
    ⟨hfree.holds, hfree.granted, Finset.mem_insert_self _ _⟩⟩
  · simp [hu]
  · change min (s.nextSlot + 1) maxThreads = min s.nextSlot maxThreads
    omega
  · change s.nextSlot + 1 = maxThreads + (insert t s.history.overshoot).card
    omega

/-- Taking the increment back. -/
theorem honest_rollback (hi : Inv s) (hover : Overshooting t s) :
    let s' := { s with
      nextSlot := s.nextSlot - 1
      history := { s.history with overshoot := s.history.overshoot.erase t } }
    contract.Honest t s s' ∧ Slotless t s' := by
  obtain ⟨taken, hle, heq, hfull⟩ := hi.next
  have htaken := hfull ⟨t, hover.pending⟩
  have hcard := Finset.card_erase_add_one hover.pending
  refine ⟨honest_count hi rfl rfl (fun u hu ↦ ?_) ?_ ?_,
    ⟨hover.holds, hover.granted, Finset.notMem_erase _ _⟩⟩
  · simp [hu]
  · change min (s.nextSlot - 1) maxThreads = min s.nextSlot maxThreads
    omega
  · change s.nextSlot - 1 = maxThreads + (s.history.overshoot.erase t).card
    omega

/-- Giving up the slot. -/
theorem honest_storeTerminated (hi : Inv s) (hh : Holding t k st s) :
    let s' := (s.release t).setStats k { s.threads k with state := .terminated }
    contract.Honest t s s' ∧ Left t k { st with state := .terminated } s' := by
  intro s'
  have hself : s'.history.holds t = none := Function.update_self ..
  have hothers : ∀ u, u ≠ t → s'.history.holds u = s.history.holds u :=
    fun u hu ↦ Function.update_of_ne hu ..
  have hslot : ∀ j, j ≠ k → s'.threads j = s.threads j := fun j hj ↦ Function.update_of_ne hj ..
  have hterm : s'.threads k = { s.threads k with state := .terminated } := Function.update_self ..
  have howner : s'.history.owner = s.history.owner := rfl
  -- who holds a slot afterwards held it before, and it is not the one given up
  have hlive : ∀ u j, s'.history.holds u = some j → u ≠ t ∧ s.history.holds u = some j ∧ j ≠ k := by
    intro u j hu
    have hut : u ≠ t := by
      rintro rfl
      rw [hself] at hu
      exact absurd hu (by simp)
    rw [hothers u hut] at hu
    refine ⟨hut, hu, ?_⟩
    rintro rfl
    exact hut (hi.holds_inj u t j hu hh.holds)
  have hk := hi.holds_lt t k hh.holds
  refine ⟨⟨?_, fun u hu ↦ ?_⟩, ⟨hself, fun _ ↦ by rw [hterm, hh.stats]⟩⟩
  · constructor
    case holds_inj =>
      intro u v j hu hv
      exact hi.holds_inj u v j (hlive u j hu).2.1 (hlive v j hv).2.1
    case holds_lt => exact fun u j hu ↦ hi.holds_lt u j (hlive u j hu).2.1
    case holds_state =>
      intro u j hu
      obtain ⟨-, hu', hjk⟩ := hlive u j hu
      rw [hslot j hjk]
      exact hi.holds_state u j hu'
    case unheld =>
      intro j hj hnone
      by_cases hjk : j = k
      · rw [hjk, hterm]
      · rw [hslot j hjk]
        refine hi.unheld j hj fun u hu ↦ ?_
        have hut : u ≠ t := by
          rintro rfl
          rw [hh.holds, Option.some_inj] at hu
          exact hjk hu.symm
        exact hnone u ((hothers u hut).trans hu)
    case fresh =>
      intro j hj
      have hj' : min s.nextSlot maxThreads ≤ j := hj
      rw [hslot j (by omega)]
      exact hi.fresh j hj
    case next => exact hi.next
    case granted_nodup => exact hi.granted_nodup
    case granted_lt => exact hi.granted_lt
    case holds_granted => exact fun u j hu ↦ hi.holds_granted u j (hlive u j hu).2.1
    case holds_owner => exact fun u j hu ↦ hi.holds_owner u j (hlive u j hu).2.1
    case activated_zero => exact hi.activated_zero
    case balanced =>
      refine hi.balanced_of_eq (fun c ↦ Finset.sum_congr rfl fun j _ ↦ ?_) rfl rfl
      by_cases hjk : j = k
      · rw [hjk, hterm]
      · rw [hslot j hjk]
  · refine ⟨hothers u hu, Iff.rfl, fun _ ↦ Iff.rfl, fun j hj ↦ hslot j ?_,
      fun j hj ↦ ⟨hj, hslot j (hi.ne_of_owner hh hj hu)⟩⟩
    rintro rfl
    exact hu (hi.holds_inj u t j hj hh.holds)

end HonestSteps

end UnsafePerf.CpuCycle
