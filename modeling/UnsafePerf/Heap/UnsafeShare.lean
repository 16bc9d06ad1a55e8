import UnsafePerf.Heap.Usage

/-!
# The share of unsafe heap memory

`total_usage` follows the size of a block through every reallocation: it is the sum, over all chains
ever begun, of the size the chain has now or had when it was freed. `unsafe_mem` is only ever
increased: at the first access of unsafe code to a block, and again at the first access after the
block has moved, because the move takes the block out of the set of unsafe objects.

So a chain can come to be counted with more bytes than it has, and then `unsafe_mem` may exceed
`total_usage`. This happens in two ways: the chain is made smaller than what was counted, or it is
counted a second time. Runs that do neither, and do not add up to `2 ^ 64` bytes, keep the bound.
-/

open Concurrency Ranges

namespace UnsafePerf.Heap

/-! ## The condition -/

/-- The call adds no more to the books of a chain than the chain has: no reallocation goes below
what unsafe code was counted for, no access counts a chain that has been counted, and the bytes in
use do not wrap. -/
def Call.Accountable (s : State) : Call → Prop
  | .alloc layout answer | .allocZeroed layout answer =>
    s.blocks.get? answer = none ∧ s.blocks.Free answer layout.size →
      s.tracker.counters .totalUsage + layout.size < 2 ^ 64
  | .realloc ptr layout newSize answer =>
    ∀ blk ∈ s.blocks.get? ptr,
      (s.blocks.erase ptr).get? answer = none ∧ (s.blocks.erase ptr).Free answer newSize →
        s.history.counted blk.chain ≤ newSize ∧
          s.tracker.counters .totalUsage + newSize < 2 ^ 64 + layout.size
  | .unsafeMemAccess ptr _ =>
    ∀ obj ∈ s.tracker.lookup ptr, s.tracker.liveUnsafeObjs.contains obj.1 = false →
      ∀ blk ∈ s.blocks.get? obj.1, s.history.counted blk.chain = 0
  | .dealloc _ _ | .memAccess _ => True

instance (s : State) : (call : Call) → Decidable (call.Accountable s)
  | .alloc _ _ | .allocZeroed _ _ => inferInstanceAs (Decidable (_ → _))
  | .realloc _ _ _ _ => inferInstanceAs (Decidable (∀ blk ∈ _, _))
  | .unsafeMemAccess _ _ => inferInstanceAs (Decidable (∀ obj ∈ _, _))
  | .dealloc _ _ | .memAccess _ => inferInstanceAs (Decidable True)

/-! ## The books of the chains -/

/-- The bytes in use are the sizes of the chains, the unsafe bytes are what was counted for each,
and no chain is counted with more than its size. -/
structure Books (s : State) : Prop where
  exact : Exact s
  usage : s.tracker.counters .totalUsage = ∑ i ∈ Finset.range s.history.born, s.history.latest i
  unsafeMem : s.tracker.counters .unsafeMem
    = ∑ i ∈ Finset.range s.history.born, s.history.counted i
  usage_lt : s.tracker.counters .totalUsage < 2 ^ 64
  counted_le : ∀ i, s.history.counted i ≤ s.history.latest i
  chain_lt : ∀ {b blk}, s.blocks.get? b = some blk → blk.chain < s.history.born
  chain_size : ∀ {b blk}, s.blocks.get? b = some blk → s.history.latest blk.chain = blk.size
  chain_inj : ∀ {b b' blk blk'}, s.blocks.get? b = some blk → s.blocks.get? b' = some blk' →
    b ≠ b' → blk.chain ≠ blk'.chain
  unborn : ∀ i, s.history.born ≤ i → s.history.counted i = 0

namespace Books

variable {s : State}

theorem chains (h : Books s) : Chains s := ⟨h.chain_lt, h.chain_size, h.chain_inj⟩

/-- The bound. -/
theorem unsafeMem_le_usage (h : Books s) :
    s.tracker.counters .unsafeMem ≤ s.tracker.counters .totalUsage := by
  rw [h.unsafeMem, h.usage]
  exact Finset.sum_le_sum fun i _ ↦ h.counted_le i

theorem new : Books .new where
  exact := exact_new
  usage := rfl
  unsafeMem := rfl
  usage_lt := by simp [Shared.new, HeapTracker.new]
  counted_le _ := le_rfl
  chain_lt hb := by simp [Shared.new] at hb
  chain_size hb := by simp [Shared.new] at hb
  chain_inj hb := by simp [Shared.new] at hb
  unborn _ _ := rfl

/-- The books of fewer blocks with the same chains. -/
theorem of_subset (h : Books s) {s' : State} (hexact : Exact s')
    (husage : s'.tracker.counters .totalUsage = s.tracker.counters .totalUsage)
    (hmem : s'.tracker.counters .unsafeMem = s.tracker.counters .unsafeMem)
    (hborn : s'.history.born = s.history.born) (hlatest : s'.history.latest = s.history.latest)
    (hcounted : s'.history.counted = s.history.counted)
    (hblocks : ∀ {b blk}, s'.blocks.get? b = some blk → s.blocks.get? b = some blk) :
    Books s' where
  exact := hexact
  usage := by rw [husage, hborn, hlatest, h.usage]
  unsafeMem := by rw [hmem, hborn, hcounted, h.unsafeMem]
  usage_lt := husage ▸ h.usage_lt
  counted_le := by rw [hcounted, hlatest]; exact h.counted_le
  chain_lt hb := hborn ▸ h.chain_lt (hblocks hb)
  chain_size hb := hlatest ▸ h.chain_size (hblocks hb)
  chain_inj hb hb' hne := h.chain_inj (hblocks hb) (hblocks hb') hne
  unborn := by rw [hborn, hcounted]; exact h.unborn

theorem freed (h : Books s) (ptr : ℕ) : Books (s.freed () ptr) := by
  refine h.of_subset (h.exact.freed ptr) ?_ ?_ (s.noteRemoved_born () ptr)
    (s.noteRemoved_latest () ptr) (s.noteRemoved_counted () ptr) fun hb ↦ (get?_freed hb).2
  · simp [Shared.freed]
  · simp [Shared.freed]

/-- A new chain, not yet counted. -/
theorem allocated (h : Books s) {size answer : ℕ} (hfree : s.blocks.Free answer size)
    (hlt : s.tracker.counters .totalUsage + size < 2 ^ 64) :
    Books (s.allocated () size answer hfree) := by
  have husage : (s.allocated () size answer hfree).tracker.counters .totalUsage
      = s.tracker.counters .totalUsage + size := by
    simpa [Shared.allocated] using hlt
  have hchains := h.chains.allocated hfree
  refine
    { exact := h.exact.allocated hfree
      usage := ?_
      unsafeMem := ?_
      usage_lt := husage ▸ hlt
      counted_le := fun i ↦ ?_
      chain_lt := hchains.chain_lt
      chain_size := hchains.chain_size
      chain_inj := hchains.chain_inj
      unborn := fun i hi ↦ h.unborn i (Nat.le_of_succ_le hi) }
  · rw [husage, h.usage]
    exact (Chains.chainBytes_allocated s hfree).symm
  · change _ = ∑ i ∈ Finset.range (s.history.born + 1), s.history.counted i
    rw [Finset.sum_range_succ, h.unborn _ le_rfl, Nat.add_zero, ← h.unsafeMem]
    simp [Shared.allocated]
  · change s.history.counted i ≤ Function.update s.history.latest _ size i
    by_cases hi : i = s.history.born
    · rw [hi, h.unborn _ le_rfl]
      exact Nat.zero_le _
    · rw [Function.update_of_ne hi]
      exact h.counted_le i

/-- A chain whose block is resized, to no less than was counted for it. -/
theorem reallocated (h : Books s) {ptr newSize answer : ℕ} {blk : Block Unit}
    (hblk : s.blocks.get? ptr = some blk) (hfree : (s.blocks.erase ptr).Free answer newSize)
    (hcounted : s.history.counted blk.chain ≤ newSize)
    (hlt : s.tracker.counters .totalUsage + newSize < 2 ^ 64 + blk.size) :
    Books (s.reallocated () ptr blk.size newSize answer blk hfree) := by
  -- the size of a chain is part of the bytes in use
  have hle : blk.size ≤ s.tracker.counters .totalUsage := h.usage ▸ h.chains.size_le_chainBytes hblk
  have husage := s.reallocated_totalUsage () ptr blk.size newSize answer blk hfree hle hlt h.usage_lt
  have hsum := h.chains.chainBytes_reallocated hblk hfree blk.size
  have hchains := h.chains.reallocated hblk hfree blk.size
  refine
    { exact := h.exact.reallocated hfree
      usage := ?_
      unsafeMem := ?_
      usage_lt := ?_
      counted_le := fun i ↦ ?_
      chain_lt := hchains.chain_lt
      chain_size := hchains.chain_size
      chain_inj := hchains.chain_inj
      unborn := ?_ }
  · change _ = Shared.chainBytes _
    have hbytes : s.tracker.counters .totalUsage = s.chainBytes := h.usage
    omega
  · rw [Shared.reallocated_unsafeMem, Shared.reallocated_born, Shared.reallocated_counted]
    exact h.unsafeMem
  · rw [husage]
    omega
  · rw [Shared.reallocated_latest, Shared.reallocated_counted, Function.update_apply]
    split
    · next heq => rwa [heq]
    · exact h.counted_le i
  · rw [Shared.reallocated_born, Shared.reallocated_counted]
    exact h.unborn

/-- A chain that is counted for the first time. -/
theorem counted (h : Books s) {base : ℕ} {blk : Block Unit} (hblk : s.blocks.get? base = some blk)
    (hzero : s.history.counted blk.chain = 0) : Books (s.counted base blk.size) := by
  have hmem : blk.chain ∈ Finset.range s.history.born := Finset.mem_range.mpr (h.chain_lt hblk)
  have hnote : s.noteCounted base blk.size = { s.history with
      counted := Function.update s.history.counted blk.chain blk.size } := by
    simp [Shared.noteCounted, hblk, hzero]
  have hle : ∀ i, Function.update s.history.counted blk.chain blk.size i ≤ s.history.latest i := by
    intro i
    rw [Function.update_apply]
    split
    · next heq => rw [heq, h.chain_size hblk]
    · exact h.counted_le i
  have hsum : ∑ i ∈ Finset.range s.history.born,
      Function.update s.history.counted blk.chain blk.size i
        = s.tracker.counters .unsafeMem + blk.size := by
    rw [h.unsafeMem, ← sum_update_add hmem, hzero, Nat.add_zero]
  have hlt : s.tracker.counters .unsafeMem + blk.size < 2 ^ 64 := by
    rw [← hsum]
    exact (Finset.sum_le_sum fun i _ ↦ hle i).trans_lt (h.usage ▸ h.usage_lt)
  refine
    { exact := h.exact.of_eq (by simp [Shared.counted]) rfl
      usage := ?_
      unsafeMem := ?_
      usage_lt := ?_
      counted_le := ?_
      chain_lt := ?_
      chain_size := ?_
      chain_inj := h.chain_inj
      unborn := fun i hi ↦ ?_ }
  all_goals simp only [Shared.counted, hnote] at *
  · simpa using h.usage
  · rw [hsum]
    simpa using hlt
  · simpa using h.usage_lt
  · exact hle
  · exact h.chain_lt
  · exact h.chain_size
  · rw [Function.update_of_ne (ne_of_gt ((h.chain_lt hblk).trans_le hi))]
    exact h.unborn i hi

/-- A call that meets the condition keeps the books. -/
theorem effect (h : Books s) (call : Call) (hall : call.Allowed () s) (hacc : call.Accountable s) :
    Books (call.effect () s) := by
  cases call with
  | alloc layout answer | allocZeroed layout answer =>
    rw [Call.effect]
    split
    · next hgrant => exact h.allocated hgrant.2 (hacc hgrant)
    · exact h
  | dealloc ptr layout => exact h.freed ptr
  | realloc ptr layout newSize answer =>
    rw [Call.effect]
    split
    · exact h
    · next blk hblk =>
      have hsize : blk.size = layout.size := by
        obtain ⟨blk', hblk', -, hsize⟩ := owns_iff.mp hall.1
        rwa [Option.some.inj (hblk.symm.trans hblk')]
      split
      · next hgrant =>
        obtain ⟨hcounted, hlt⟩ := hacc blk hblk hgrant
        rw [← hsize] at hlt ⊢
        exact h.reallocated hblk hgrant.2 hcounted hlt
      · exact h
  | memAccess ptr =>
    rw [Call.effect]
    split
    · refine h.of_subset (h.exact.of_eq rfl rfl) ?_ ?_ rfl rfl rfl id <;> simp [Shared.tracked]
    · exact h
  | unsafeMemAccess ptr isLoad =>
    rw [Call.effect]
    split
    · exact h
    · next base size hobj =>
      -- the object is counted at its first access; the access itself is counted in any case
      have hbooks : Books (if s.tracker.liveUnsafeObjs.contains base
          then s.tracked (·.insertUnsafe base) else s.counted base size) := by
        split
        · exact h.of_subset (h.exact.of_eq rfl rfl) rfl rfl rfl rfl rfl id
        · next hnew =>
          obtain ⟨hbase, -⟩ := h.exact.lookup_eq_some_iff.mp hobj
          obtain ⟨blk, hblk, rfl⟩ := Option.map_eq_some_iff.mp hbase
          exact h.counted hblk (hacc _ hobj (Bool.eq_false_iff.mpr hnew) blk hblk)
      refine hbooks.of_subset (hbooks.exact.of_eq rfl rfl) ?_ ?_ rfl rfl rfl id <;>
        cases isLoad <;> simp [Shared.tracked]

end Books

/-! ## Runs -/

/-- In a run whose calls all meet the condition, the unsafe bytes never exceed the bytes in use. -/
theorem unsafe_mem_le_total_usage (calls : List Call)
    (hcalls : ∀ (i : ℕ) (hi : i < calls.length),
      calls[i].Allowed () (runCalls (calls.take i)) →
        calls[i].Accountable (runCalls (calls.take i))) :
    ∀ i ≤ calls.length, (runCalls (calls.take i)).tracker.counters .unsafeMem
      ≤ (runCalls (calls.take i)).tracker.counters .totalUsage := by
  suffices hbooks : ∀ i ≤ calls.length, Books (runCalls (calls.take i)) from
    fun i hi ↦ (hbooks i hi).unsafeMem_le_usage
  intro i hi
  induction i with
  | zero => exact .new
  | succ i ih =>
    have hprior := ih (Nat.le_of_succ_le hi)
    rw [List.take_succ_eq_append_getElem hi, runCalls_append_singleton, Call.exec_eq]
    split
    · next hall => exact hprior.effect _ hall (hcalls i hi hall)
    · exact hprior

/-- An object that unsafe code accesses twice before it moves to a larger block. -/
def grownObject : List Call :=
  [.alloc ⟨100⟩ 4096, .unsafeMemAccess 4100 true, .unsafeMemAccess 4100 false,
    .realloc 4096 ⟨100⟩ 200 8192, .memAccess 8200, .dealloc 8192 ⟨200⟩]

theorem unsafe_mem_le_total_usage_grownObject :
    (∀ (i : ℕ) (hi : i < grownObject.length),
      grownObject[i].Allowed () (runCalls (grownObject.take i)) →
        grownObject[i].Accountable (runCalls (grownObject.take i))) ∧
    ∀ i ≤ grownObject.length, (runCalls (grownObject.take i)).tracker.counters .unsafeMem
      ≤ (runCalls (grownObject.take i)).tracker.counters .totalUsage := by
  have hcalls : ∀ (i : ℕ) (hi : i < grownObject.length),
      grownObject[i].Allowed () (runCalls (grownObject.take i)) →
        grownObject[i].Accountable (runCalls (grownObject.take i)) := by
    decide +kernel
  exact ⟨hcalls, unsafe_mem_le_total_usage grownObject hcalls⟩

/-- An object that shrinks after unsafe code has read it. -/
def shrunkObject : List Call :=
  [.alloc ⟨100⟩ 4096, .unsafeMemAccess 4096 true, .realloc 4096 ⟨100⟩ 10 4096]

theorem unsafe_mem_gt_total_usage :
    ¬∀ calls : List Call, (runCalls calls).tracker.counters .unsafeMem
      ≤ (runCalls calls).tracker.counters .totalUsage := by
  intro h
  have hgt : ¬(runCalls shrunkObject).tracker.counters .unsafeMem
      ≤ (runCalls shrunkObject).tracker.counters .totalUsage := by decide +kernel
  exact hgt (h shrunkObject)

end UnsafePerf.Heap
