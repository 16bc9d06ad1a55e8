import UnsafePerf.CpuCycle.System

/-!
# The totals of a run

At the end of the program `calculate_total_stats` adds up the slots. What it misses is exactly what
the statistics resets of `allocate_slot` have overwritten: the registry keeps no copy of the
counters of a terminated thread, so the next thread to take its slot erases them.
-/

open Concurrency

namespace UnsafePerf.CpuCycle

section Code

variable {τ : Type}

/-- `counter.load`. -/
def loadCounter (slot : ℕ) (c : Counter) : Program (Shared τ) UInt64 :=
  .load fun s ↦ (s.threads slot).counters c

/-- The loop of `calculate_total_stats`. -/
def addSlots : List ℕ → (Counter → UInt64) → Program (Shared τ) (Counter → UInt64)
  | [], totals => return totals
  | slot :: slots, totals => do
    let state ← loadState slot
    if state = .uninitialized then addSlots slots totals
    else
      let normal ← loadCounter slot .normalCycles
      let unsafeTotal ← loadCounter slot .unsafeCycles
      let externalSafe ← loadCounter slot .externalSafeCycles
      let externalUnsafe ← loadCounter slot .externalUnsafeCycles
      let blocks ← loadCounter slot .unsafeBlocks
      let calls ← loadCounter slot .externalCalls
      addSlots slots fun
        | .normalCycles => totals .normalCycles + normal
        | .unsafeCycles => totals .unsafeCycles + unsafeTotal
        | .externalSafeCycles => totals .externalSafeCycles + externalSafe
        | .externalUnsafeCycles => totals .externalUnsafeCycles + externalUnsafe
        | .unsafeBlocks => totals .unsafeBlocks + blocks
        | .externalCalls => totals .externalCalls + calls

/-- `calculate_total_stats`: the cycles of the program, and the six totals. -/
def calculateTotalStats : Program (Shared τ) (UInt64 × (Counter → UInt64)) := do
  let maxSlot ← loadNextSlot
  let totals ← addSlots (List.range (min maxSlot maxThreads)) fun _ ↦ 0
  return (totals .normalCycles + totals .unsafeCycles + totals .externalSafeCycles
    + totals .externalUnsafeCycles, totals)

end Code

/-! ## What the scan returns -/

section Exec

variable {τ : Type} {s : Shared τ}

theorem addSlots_exec {slots : List ℕ} (totals : Counter → UInt64) (c : Counter)
    (hused : ∀ k ∈ slots, (s.threads k).state ≠ .uninitialized) :
    (((addSlots slots totals).exec s).1 c).toNat
      = ((totals c).toNat + (slots.map fun k ↦ ((s.threads k).counters c).toNat).sum) % 2 ^ 64 := by
  induction slots generalizing totals with
  | nil => simp [addSlots, Nat.mod_eq_of_lt (totals c).toNat_lt]
  | cons k slots ih =>
    have hk : (s.threads k).state ≠ .uninitialized := hused k List.mem_cons_self
    simp only [addSlots, loadState, loadCounter, Program.exec_bind, Program.exec_load, hk, if_false]
    rw [ih _ fun j hj ↦ hused j (List.mem_cons_of_mem _ hj), List.map_cons, List.sum_cons,
      ← add_assoc]
    cases c <;> simp only [UInt64.toNat_add, Nat.mod_add_mod]

/-- The totals are the sums over the slots in use, if none of these is uninitialized. -/
theorem calculateTotalStats_exec (c : Counter)
    (hused : ∀ k < min s.nextSlot maxThreads, (s.threads k).state ≠ .uninitialized) :
    ((calculateTotalStats.exec s).1.2 c).toNat
      = (∑ k ∈ Finset.range (min s.nextSlot maxThreads), ((s.threads k).counters c).toNat)
        % 2 ^ 64 := by
  have hused' : ∀ k ∈ List.range (min s.nextSlot maxThreads),
      (s.threads k).state ≠ .uninitialized := fun k hk ↦ hused k (List.mem_range.mp hk)
  simp only [calculateTotalStats, loadNextSlot, Program.exec_bind, Program.exec_load,
    Program.pure_eq, Program.exec_done]
  rw [addSlots_exec _ _ hused', UInt64.toNat_zero, zero_add]
  rfl

end Exec

/-! ## Totals and books -/

section Books

variable {τ : Type} [Fintype τ] {s : Shared τ}

/-- The slots beyond those in use contribute nothing. -/
theorem Inv.slotTotal_eq (hi : Inv s) (c : Counter) :
    ∑ k ∈ Finset.range (min s.nextSlot maxThreads), ((s.threads k).counters c).toNat
      = s.slotTotal c := by
  refine Finset.sum_subset (Finset.range_subset_range.mpr (min_le_right _ _)) fun k _ hk ↦ ?_
  rw [hi.fresh k (not_lt.mp fun h ↦ hk (Finset.mem_range.mpr h))]
  rfl

/-- With every thread between calls, no slot in use is uninitialized. -/
theorem Inv.used (hi : Inv s) (hsettled : ∀ t, ∃ life, Settled t life s) :
    ∀ k < min s.nextSlot maxThreads, (s.threads k).state ≠ .uninitialized := by
  intro k hk
  by_cases hheld : ∃ t, s.history.holds t = some k
  · obtain ⟨t, ht⟩ := hheld
    obtain ⟨life, hlife⟩ := hsettled t
    cases hlife with
    | slotless hfree => exact absurd (hfree.holds.symm.trans ht) (by simp)
    | holding _ _ _ _ _ hactive hh =>
      rw [Option.some.inj (ht.symm.trans hh.holds), hh.stats, hactive]
      simp
    | retired _ _ _ _ _ hleft => exact absurd (hleft.holds.symm.trans ht) (by simp)
  · rw [hi.unheld k hk fun t ht ↦ hheld ⟨t, ht⟩]
    simp

/-- **What the totals miss.** With every thread between calls the totals agree with what was
accounted exactly if no total is too large for a counter and no reset has overwritten anything but
zeros. -/
theorem Inv.totals_eq_iff (hi : Inv s) (hsettled : ∀ t, ∃ life, Settled t life s) :
    (∀ c, ((calculateTotalStats.exec s).1.2 c).toNat = s.accountedTotal c) ↔
      (∀ c, s.accountedTotal c < 2 ^ 64) ∧ ∀ e ∈ s.history.discarded, e.2.2 = 0 := by
  have hscan : ∀ c, ((calculateTotalStats.exec s).1.2 c).toNat = s.slotTotal c % 2 ^ 64 := by
    intro c
    rw [calculateTotalStats_exec c (hi.used hsettled), hi.slotTotal_eq]
  constructor
  · intro h
    have hlt : ∀ c, s.accountedTotal c < 2 ^ 64 := fun c ↦ h c ▸ UInt64.toNat_lt _
    refine ⟨hlt, fun e he ↦ ?_⟩
    have hbal := hi.balanced e.2.1 (hlt _)
    have hle : s.slotTotal e.2.1 < 2 ^ 64 := by
      have := hlt e.2.1
      omega
    have hnone : s.discardedTotal e.2.1 = 0 := by
      have := h e.2.1
      rw [hscan, Nat.mod_eq_of_lt hle] at this
      omega
    have hzero : Shared.discardedOf e.2.1 e = 0 :=
      List.sum_eq_zero_iff.mp hnone _ (List.mem_map_of_mem he)
    rw [Shared.discardedOf, if_pos rfl] at hzero
    exact UInt64.toNat_inj.mp hzero
  · rintro ⟨hlt, hzero⟩ c
    have hnone : s.discardedTotal c = 0 := by
      refine List.sum_eq_zero fun n hn ↦ ?_
      obtain ⟨e, he, rfl⟩ := List.mem_map.mp hn
      rw [Shared.discardedOf, hzero e he, UInt64.toNat_zero, ite_self]
    have hbal := hi.balanced c (hlt c)
    have := hlt c
    rw [hscan, Nat.mod_eq_of_lt (by omega)]
    omega

end Books

/-! ## Runs -/

section Runs

variable {τ : Type} [DecidableEq τ] [Fintype τ]

/-- **The totals of a run.** When every thread is between calls, the six totals are what all
threads together have accounted exactly if these amounts fit into the counters and no thread was
ever given a slot in which a terminated thread had left anything. -/
theorem totals_exact_iff (ms : List (Move τ (Call × Inputs)))
    (hidle : ∀ t, ∃ life, (system.run start ms).Idle t life) :
    let s := (system.run start ms).shared
    (∀ c, ((calculateTotalStats.exec s).1.2 c).toNat = s.accountedTotal c) ↔
      (∀ c, s.accountedTotal c < 2 ^ 64) ∧ ∀ e ∈ s.history.discarded, e.2.2 = 0 := by
  intro s
  refine (inv_run ms).totals_eq_iff fun t ↦ ?_
  obtain ⟨life, hlife⟩ := hidle t
  exact ⟨life, settled_run ms hlife⟩

/-- Two threads, one after the other: each initializes, opens an unsafe region, and cleans up. -/
def successiveThreads : List (Move Bool (Call × Inputs)) :=
  [false, true].flatMap fun t ↦
    Move.alone t (.init, ⟨1, 10, 10, 10⟩) 20 ++
    Move.alone t (.hook .startMeasurement, ⟨1, 11, 20, 21⟩) 20 ++
    Move.alone t (.cleanup, ⟨1, 30, 30, 30⟩) 20

theorem successiveThreads_idle (t : Bool) :
    ∃ life, (system.run start successiveThreads).Idle t life ∧ life.cleanedUp = true := by
  have hdone : ∀ t, (((system.run start successiveThreads).thread t).returned.any
      (·.cleanedUp)) = true := by decide +kernel
  obtain ⟨life, hlife, hclean⟩ := (Option.any_eq_true _ _).mp (hdone t)
  exact ⟨life, Program.returned_eq_some.mp hlife, hclean⟩

/-- The second thread erases what the first has accounted. -/
theorem totals_not_exact :
    ∃ ms : List (Move Bool (Call × Inputs)),
      (∀ t, ∃ life, (system.run start ms).Idle t life ∧ life.cleanedUp = true) ∧
      ((calculateTotalStats.exec (system.run start ms).shared).1.2 .unsafeBlocks).toNat
        ≠ (system.run start ms).shared.accountedTotal .unsafeBlocks :=
  ⟨successiveThreads, successiveThreads_idle, by decide +kernel⟩

/-- In the run of two successive threads both sides fail. -/
theorem totals_exact_iff_successive :
    let s := (system.run start successiveThreads).shared
    (∀ c, ((calculateTotalStats.exec s).1.2 c).toNat = s.accountedTotal c) ↔
      (∀ c, s.accountedTotal c < 2 ^ 64) ∧ ∀ e ∈ s.history.discarded, e.2.2 = 0 :=
  totals_exact_iff successiveThreads fun t ↦ (successiveThreads_idle t).imp fun _ h ↦ h.1

end Runs

end UnsafePerf.CpuCycle
