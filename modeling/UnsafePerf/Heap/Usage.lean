import UnsafePerf.Heap.LiveObjects
import Mathlib.Algebra.BigOperators.Group.Finset.Piecewise
import Mathlib.Algebra.Order.BigOperators.Group.Finset

/-!
# The bytes in use

`total_usage` is increased by the size of every block that is allocated and corrected by the change
of size at every reallocation. A chain is a block through all its reallocations, and its latest size
is the size it has now, or had when it was freed. `total_usage` is the sum of the latest sizes of all
chains ever begun, in the arithmetic of the counter.

The correction of a block that becomes smaller cannot take the counter below zero, because the block
is part of the sum.
-/

open Concurrency Ranges

namespace UnsafePerf.Heap

/-! ## The chains of the live blocks -/

/-- Every live block belongs to a chain of its own, whose latest size is the size of the block. -/
structure Chains {τ : Type} (s : Shared τ) : Prop where
  chain_lt : ∀ {b blk}, s.blocks.get? b = some blk → blk.chain < s.history.born
  chain_size : ∀ {b blk}, s.blocks.get? b = some blk → s.history.latest blk.chain = blk.size
  chain_inj : ∀ {b b' blk blk'}, s.blocks.get? b = some blk → s.blocks.get? b' = some blk' →
    b ≠ b' → blk.chain ≠ blk'.chain

/-- The sum of the latest sizes of all chains. -/
def Shared.chainBytes {τ : Type} (s : Shared τ) : ℕ :=
  ∑ i ∈ Finset.range s.history.born, s.history.latest i

/-- Changing one term of a sum. -/
theorem sum_update_add {n i v : ℕ} {f : ℕ → ℕ} (hi : i ∈ Finset.range n) :
    ∑ j ∈ Finset.range n, Function.update f i v j + f i = ∑ j ∈ Finset.range n, f j + v := by
  rw [Finset.sum_update_of_mem hi, Finset.sum_eq_add_sum_sdiff_singleton_of_mem hi f]
  omega

section Blocks

variable {τ : Type} {s : Shared τ} {t : τ}

theorem get?_obtained {size answer b : ℕ} {blk : Block τ} (hfree : s.blocks.Free answer size)
    (hb : (s.obtained t size answer hfree).blocks.get? b = some blk) :
    answer = b ∧ blk = ⟨size, t, s.history.born⟩ ∨ s.blocks.get? b = some blk := by
  change (s.blocks.put answer _ hfree).get? b = some blk at hb
  rw [RangeMap.get?_put] at hb
  split at hb
  · next heq => exact .inl ⟨heq, (Option.some.inj hb).symm⟩
  · exact .inr hb

theorem get?_allocated {size answer b : ℕ} {blk : Block τ} (hfree : s.blocks.Free answer size)
    (hb : (s.allocated t size answer hfree).blocks.get? b = some blk) :
    answer = b ∧ blk = ⟨size, t, s.history.born⟩ ∨ s.blocks.get? b = some blk :=
  get?_obtained hfree hb

variable [DecidableEq τ]

theorem get?_freed {ptr b : ℕ} {blk : Block τ} (hb : (s.freed t ptr).blocks.get? b = some blk) :
    ptr ≠ b ∧ s.blocks.get? b = some blk := by
  change (s.blocks.erase ptr).get? b = some blk at hb
  rw [RangeMap.get?_erase] at hb
  exact Option.ite_none_left_eq_some.mp hb

theorem of_get?_resized {ptr newSize answer b : ℕ} {blk blk' : Block τ}
    (hfree : (s.blocks.erase ptr).Free answer newSize)
    (hb : (s.resized t ptr newSize answer blk hfree).blocks.get? b = some blk') :
    answer = b ∧ blk' = { blk with size := newSize } ∨ ptr ≠ b ∧ s.blocks.get? b = some blk' := by
  change ((s.blocks.erase ptr).put answer _ hfree).get? b = some blk' at hb
  rw [RangeMap.get?_put, RangeMap.get?_erase] at hb
  split at hb
  · next heq => exact .inl ⟨heq, (Option.some.inj hb).symm⟩
  · exact .inr (Option.ite_none_left_eq_some.mp hb)

theorem get?_reallocated {ptr oldSize newSize answer b : ℕ} {blk blk' : Block τ}
    (hfree : (s.blocks.erase ptr).Free answer newSize)
    (hb : (s.reallocated t ptr oldSize newSize answer blk hfree).blocks.get? b = some blk') :
    answer = b ∧ blk' = { blk with size := newSize } ∨ ptr ≠ b ∧ s.blocks.get? b = some blk' := by
  rw [Shared.reallocated_blocks] at hb
  exact of_get?_resized (t := t) hfree hb

end Blocks

namespace Chains

section Steps

variable {τ : Type} {t : τ} {s s' : Shared τ}

theorem new : Chains (.new : Shared τ) where
  chain_lt hb := by simp [Shared.new] at hb
  chain_size hb := by simp [Shared.new] at hb
  chain_inj hb := by simp [Shared.new] at hb

/-- Fewer blocks, with the same chains. -/
theorem of_subset (h : Chains s) (hborn : s'.history.born = s.history.born)
    (hlatest : s'.history.latest = s.history.latest)
    (hblocks : ∀ {b blk}, s'.blocks.get? b = some blk → s.blocks.get? b = some blk) :
    Chains s' where
  chain_lt hb := hborn ▸ h.chain_lt (hblocks hb)
  chain_size hb := hlatest ▸ h.chain_size (hblocks hb)
  chain_inj hb hb' hne := h.chain_inj (hblocks hb) (hblocks hb') hne

/-- A block that the system hands out begins a chain. -/
theorem obtained (h : Chains s) {size answer : ℕ} (hfree : s.blocks.Free answer size) :
    Chains (s.obtained t size answer hfree) where
  chain_lt hb := by
    rcases get?_obtained hfree hb with ⟨-, rfl⟩ | hold
    · exact Nat.lt_succ_self _
    · exact Nat.lt_succ_of_lt (h.chain_lt hold)
  chain_size hb := by
    change Function.update s.history.latest _ size _ = _
    rcases get?_obtained hfree hb with ⟨-, rfl⟩ | hold
    · exact Function.update_self ..
    · rw [Function.update_of_ne (h.chain_lt hold).ne, h.chain_size hold]
  chain_inj hb hb' hne := by
    rcases get?_obtained hfree hb with ⟨rfl, rfl⟩ | hold
    · rcases get?_obtained hfree hb' with ⟨rfl, rfl⟩ | hold'
      · exact absurd rfl hne
      · exact (h.chain_lt hold').ne'
    · rcases get?_obtained hfree hb' with ⟨rfl, rfl⟩ | hold'
      · exact (h.chain_lt hold).ne
      · exact h.chain_inj hold hold' hne

theorem chainBytes_obtained {size answer : ℕ} (hfree : s.blocks.Free answer size) :
    (s.obtained t size answer hfree).chainBytes = s.chainBytes + size := by
  change ∑ i ∈ Finset.range (s.history.born + 1), Function.update s.history.latest _ size i = _
  rw [Finset.sum_range_succ, Function.update_self,
    Finset.sum_update_of_notMem Finset.notMem_range_self]
  rfl

variable [DecidableEq τ]

/-- A block that the system resizes continues its chain. -/
theorem resized (h : Chains s) {ptr newSize answer : ℕ} {blk : Block τ}
    (hblk : s.blocks.get? ptr = some blk) (hfree : (s.blocks.erase ptr).Free answer newSize) :
    Chains (s.resized t ptr newSize answer blk hfree) where
  chain_lt hb := by
    change _ < s.history.born
    rcases of_get?_resized hfree hb with ⟨-, rfl⟩ | ⟨-, hold⟩
    · exact (h.chain_lt hblk : blk.chain < s.history.born)
    · exact h.chain_lt hold
  chain_size hb := by
    change Function.update s.history.latest blk.chain newSize _ = _
    rcases of_get?_resized hfree hb with ⟨-, rfl⟩ | ⟨hptr, hold⟩
    · exact Function.update_self ..
    · rw [Function.update_of_ne (h.chain_inj hblk hold hptr).symm, h.chain_size hold]
  chain_inj hb hb' hne := by
    rcases of_get?_resized hfree hb with ⟨rfl, rfl⟩ | ⟨hptr, hold⟩
    · rcases of_get?_resized hfree hb' with ⟨rfl, rfl⟩ | ⟨hptr', hold'⟩
      · exact absurd rfl hne
      · exact (h.chain_inj hblk hold' hptr' : blk.chain ≠ _)
    · rcases of_get?_resized hfree hb' with ⟨rfl, rfl⟩ | ⟨hptr', hold'⟩
      · exact (h.chain_inj hblk hold hptr).symm
      · exact h.chain_inj hold hold' hne

theorem chainBytes_resized (h : Chains s) {ptr newSize answer : ℕ} {blk : Block τ}
    (hblk : s.blocks.get? ptr = some blk) (hfree : (s.blocks.erase ptr).Free answer newSize) :
    (s.resized t ptr newSize answer blk hfree).chainBytes + blk.size
      = s.chainBytes + newSize := by
  change ∑ i ∈ Finset.range s.history.born, Function.update s.history.latest blk.chain newSize i
    + blk.size = _
  rw [← h.chain_size hblk]
  exact sum_update_add (Finset.mem_range.mpr (h.chain_lt hblk))

end Steps

variable {s : State}

theorem freed (h : Chains s) (ptr : ℕ) : Chains (s.freed () ptr) :=
  h.of_subset (s.noteRemoved_born () ptr) (s.noteRemoved_latest () ptr) fun hb ↦ (get?_freed hb).2

/-- An allocation begins a chain. -/
theorem allocated (h : Chains s) {size answer : ℕ} (hfree : s.blocks.Free answer size) :
    Chains (s.allocated () size answer hfree) :=
  of_subset (h.obtained hfree) rfl rfl id

/-- A reallocation continues the chain of its block. -/
theorem reallocated (h : Chains s) {ptr newSize answer : ℕ} {blk : Block Unit}
    (hblk : s.blocks.get? ptr = some blk) (hfree : (s.blocks.erase ptr).Free answer newSize)
    (oldSize : ℕ) : Chains (s.reallocated () ptr oldSize newSize answer blk hfree) := by
  refine of_subset (h.resized (t := ()) hblk hfree) (Shared.reallocated_born ..)
    (Shared.reallocated_latest ..) fun hb ↦ ?_
  rwa [Shared.reallocated_blocks] at hb

/-- The size of a live block is part of the sum. -/
theorem size_le_chainBytes (h : Chains s) {b : ℕ} {blk : Block Unit}
    (hblk : s.blocks.get? b = some blk) : blk.size ≤ s.chainBytes := by
  rw [← h.chain_size hblk]
  exact Finset.single_le_sum (fun i _ ↦ Nat.zero_le _) (Finset.mem_range.mpr (h.chain_lt hblk))

theorem chainBytes_allocated (s : State) {size answer : ℕ} (hfree : s.blocks.Free answer size) :
    (s.allocated () size answer hfree).chainBytes = s.chainBytes + size :=
  chainBytes_obtained (t := ()) hfree

theorem chainBytes_reallocated (h : Chains s) {ptr newSize answer : ℕ} {blk : Block Unit}
    (hblk : s.blocks.get? ptr = some blk) (hfree : (s.blocks.erase ptr).Free answer newSize)
    (oldSize : ℕ) : (s.reallocated () ptr oldSize newSize answer blk hfree).chainBytes + blk.size
      = s.chainBytes + newSize := by
  rw [Shared.chainBytes, Shared.reallocated_born, Shared.reallocated_latest]
  exact h.chainBytes_resized (t := ()) hblk hfree

end Chains

/-! ## The counter -/

/-- The addition to `total_usage` that the call makes, or the subtraction from it, wraps. -/
def Call.Wraps (s : State) : Call → Prop
  | .alloc layout answer | .allocZeroed layout answer =>
    (s.blocks.get? answer = none ∧ s.blocks.Free answer layout.size) ∧
      2 ^ 64 ≤ s.tracker.counters .totalUsage + layout.size
  | .realloc ptr layout newSize answer =>
    ((s.blocks.get? ptr).isSome ∧ (s.blocks.erase ptr).get? answer = none ∧
      (s.blocks.erase ptr).Free answer newSize) ∧
        if newSize > layout.size then
          2 ^ 64 ≤ s.tracker.counters .totalUsage + (newSize - layout.size)
        else s.tracker.counters .totalUsage < layout.size - newSize
  | .dealloc _ _ | .memAccess _ | .unsafeMemAccess _ _ => False

/-- The counter is the sum, up to the width of the counter. -/
structure Metered (s : State) : Prop where
  chains : Chains s
  usage : s.tracker.counters .totalUsage = s.chainBytes % 2 ^ 64

namespace Metered

variable {s : State}

theorem new : Metered .new := ⟨.new, rfl⟩

/-- A step that leaves chains and counter alone. -/
theorem of_subset (h : Metered s) {s' : State}
    (husage : s'.tracker.counters .totalUsage = s.tracker.counters .totalUsage)
    (hborn : s'.history.born = s.history.born) (hlatest : s'.history.latest = s.history.latest)
    (hblocks : ∀ {b blk}, s'.blocks.get? b = some blk → s.blocks.get? b = some blk) :
    Metered s' where
  chains := h.chains.of_subset hborn hlatest hblocks
  usage := by rw [husage, h.usage, Shared.chainBytes, Shared.chainBytes, hborn, hlatest]

theorem allocated (h : Metered s) {size answer : ℕ} (hfree : s.blocks.Free answer size) :
    Metered (s.allocated () size answer hfree) where
  chains := h.chains.allocated hfree
  usage := by
    have husage : (s.allocated () size answer hfree).tracker.counters .totalUsage
        = (s.tracker.counters .totalUsage + size) % 2 ^ 64 := by simp [Shared.allocated]
    rw [husage, h.usage, Chains.chainBytes_allocated, Nat.mod_add_mod]

theorem reallocated (h : Metered s) {ptr newSize answer : ℕ} {blk : Block Unit}
    (hblk : s.blocks.get? ptr = some blk) (hfree : (s.blocks.erase ptr).Free answer newSize) :
    Metered (s.reallocated () ptr blk.size newSize answer blk hfree) where
  chains := h.chains.reallocated hblk hfree blk.size
  usage := by
    have hsum := h.chains.chainBytes_reallocated hblk hfree blk.size
    have hbelow : ptr + blk.size < 2 ^ 64 := s.blocks.below hblk
    rw [Shared.totalUsage_reallocated, HeapTracker.counters_adjust_totalUsage, h.usage]
    split
    · omega
    · omega

theorem effect (h : Metered s) (call : Call) (hall : call.Allowed () s) :
    Metered (call.effect () s) := by
  cases call with
  | alloc layout answer | allocZeroed layout answer =>
    rw [Call.effect]
    split
    · exact h.allocated _
    · exact h
  | dealloc ptr layout =>
    exact h.of_subset (by simp [Call.effect, Shared.freed]) (s.noteRemoved_born () ptr)
      (s.noteRemoved_latest () ptr) fun hb ↦ (get?_freed hb).2
  | realloc ptr layout newSize answer =>
    rw [Call.effect]
    split
    · exact h
    · next blk hblk =>
      obtain ⟨blk', hblk', -, hsize⟩ := owns_iff.mp hall.1
      obtain rfl : blk = blk' := Option.some.inj (hblk.symm.trans hblk')
      rw [← hsize]
      split
      · exact h.reallocated hblk _
      · exact h
  | memAccess ptr =>
    rw [Call.effect]
    split
    · exact h.of_subset (by simp [Shared.tracked]) rfl rfl id
    · exact h
  | unsafeMemAccess ptr isLoad =>
    rw [Call.effect]
    split
    · exact h
    · next base size hobj =>
      dsimp only
      split
      · exact h.of_subset (by cases isLoad <;> simp [Shared.tracked, HeapTracker.insertUnsafe])
          rfl rfl id
      · exact h.of_subset (by cases isLoad <;> simp [Shared.tracked, Shared.counted])
          (s.noteCounted_born base size) (s.noteCounted_latest base size) id

/-- A call whose result keeps the sum below `2 ^ 64` does not wrap. -/
theorem not_wraps (h : Metered s) (call : Call) (hall : call.Allowed () s)
    (hbefore : s.chainBytes < 2 ^ 64) (hafter : (call.effect () s).chainBytes < 2 ^ 64) :
    ¬call.Wraps s := by
  have husage : s.tracker.counters .totalUsage = s.chainBytes :=
    h.usage.trans (Nat.mod_eq_of_lt hbefore)
  cases call with
  | alloc layout answer | allocZeroed layout answer =>
    rintro ⟨hgrant, hwrap⟩
    rw [Call.effect, dif_pos hgrant, Chains.chainBytes_allocated] at hafter
    omega
  | realloc ptr layout newSize answer =>
    rintro ⟨⟨hsome, hgrant⟩, hwrap⟩
    obtain ⟨blk, hblk, -, hsize⟩ := owns_iff.mp hall.1
    have hle := h.chains.size_le_chainBytes hblk
    have hsum := h.chains.chainBytes_reallocated hblk hgrant.2 layout.size
    simp only [Call.effect, hblk, dif_pos hgrant] at hafter
    split at hwrap
    · omega
    · omega
  | dealloc | memAccess | unsafeMemAccess => exact id

end Metered

theorem metered_runCalls (calls : List Call) : Metered (runCalls calls) :=
  runCalls_induction .new (fun _ call h hall ↦ h.effect call hall) calls

/-- After every sequence of calls the counter is the sum of the latest sizes of all chains, in the
arithmetic of the counter, and no call wraps as long as the sum fits. -/
theorem total_usage_exact (calls : List Call) :
    (runCalls calls).tracker.counters .totalUsage = (runCalls calls).chainBytes % 2 ^ 64 ∧
      ((runCalls calls).chainBytes < 2 ^ 64 →
        (runCalls calls).tracker.counters .totalUsage = (runCalls calls).chainBytes) ∧
      ∀ (i : ℕ) (hi : i < calls.length), (runCalls (calls.take i)).chainBytes < 2 ^ 64 →
        (runCalls (calls.take (i + 1))).chainBytes < 2 ^ 64 →
          calls[i].Allowed () (runCalls (calls.take i)) →
            ¬calls[i].Wraps (runCalls (calls.take i)) := by
  have husage := (metered_runCalls calls).usage
  refine ⟨husage, fun hlt ↦ husage.trans (Nat.mod_eq_of_lt hlt), fun i hi hbefore hafter hall ↦ ?_⟩
  rw [List.take_succ_eq_append_getElem hi, runCalls_append_singleton, Call.exec_eq,
    if_pos hall] at hafter
  exact (metered_runCalls _).not_wraps _ hall hbefore hafter

end UnsafePerf.Heap
