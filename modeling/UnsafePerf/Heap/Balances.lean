import UnsafePerf.Heap.Holdings
import UnsafePerf.Heap.Usage
import UnsafePerf.Concurrency.Debts
import Mathlib.Algebra.BigOperators.Ring.Finset
import Mathlib.Data.ZMod.Basic
import Mathlib.Tactic.Ring

/-!
# The counters under concurrency

Every call of the tracker changes several counters, one atomic step at a time, and the system
allocator takes a step of its own before or after. So while calls are in progress the counters agree
neither with each other nor with the blocks. This file shows that between calls they do, whatever the
interleaving: `total_usage` is the sum of the latest sizes of all chains, `total_alloc` the number of
chains, the histograms add up to the counters of what they classify, and the blocks that are live are
those allocated and not freed. The blocks meant are those of the system allocator, which are what the
threads hold by their calls (`blocks_held`).

This holds of runs too in which a removal takes the record of another thread's block and the map of
live objects is no longer exact: the counters lose nothing.

## The books

For each of these equations the difference of its two sides is a balance. They are kept together, in
the arithmetic of the counters, and `HeapCounter.charge` says how they follow a counter. A call
owes what its steps so far have added, and pays it with the rest. A reallocation charges `total_usage`
with the difference of two sizes, one of which the caller supplies. That this is the size the block
really had is known from the contract: nobody else touches a block that the thread owns.
-/

open Concurrency Ranges

namespace UnsafePerf.Heap

/-! ## The live blocks -/

/-- An exact map has as many entries as there are live blocks. -/
theorem Exact.size_liveObjs {τ : Type} {s : Shared τ} (h : Exact s) :
    s.tracker.liveObjs.size = s.blocks.size := by
  have hmap : s.tracker.liveObjs = s.blocks.entries.map fun _ blk ↦ blk.size :=
    Std.ExtTreeMap.ext_getElem? fun b ↦ by
      rw [Std.ExtTreeMap.getElem?_map]
      exact h b
  rw [hmap, Std.ExtTreeMap.size_map]
  rfl

/-! ## The balances -/

/-- The equations between the counters and what they count. -/
inductive Account where
  | usage
  | allocations
  | frees
  | classes
  | unsafeClasses

/-- The amounts of all accounts, in the arithmetic of the counters. -/
abbrev Amounts := Account → ZMod (2 ^ 64)

/-- The sum of the figures of a histogram. -/
def histogramSum (figures : Fin objSizeNum → ℕ) : ZMod (2 ^ 64) := ∑ i, (figures i : ZMod (2 ^ 64))

/-- The differences between the counters and what they count. -/
def balance {τ : Type} (s : Shared τ) : Amounts
  | .usage => s.chainBytes - s.tracker.counters .totalUsage
  | .allocations => s.history.born - s.tracker.counters .totalAlloc
  | .frees => s.blocks.size + s.tracker.counters .totalDealloc - s.history.born
  | .classes => s.tracker.counters .totalAlloc + s.tracker.counters .totalRealloc
      - histogramSum s.tracker.sizeHistogram
  | .unsafeClasses => s.tracker.counters .totalUnsafeObjs
      - histogramSum s.tracker.unsafeSizeHistogram

/-- What is added to the balances when an amount is added to a counter. -/
def HeapCounter.charge (c : HeapCounter) (d : ZMod (2 ^ 64)) : Amounts
  | .usage => if c = .totalUsage then -d else 0
  | .allocations => if c = .totalAlloc then -d else 0
  | .frees => if c = .totalDealloc then d else 0
  | .classes => if c = .totalAlloc ∨ c = .totalRealloc then d else 0
  | .unsafeClasses => if c = .totalUnsafeObjs then d else 0

/-- What the classification of an object adds to the balances. -/
def classified : Bool → Amounts
  | false, .classes => -1
  | true, .unsafeClasses => -1
  | _, _ => 0

/-- What a new block adds to the balances. -/
def handedOut (size : ℕ) : Amounts
  | .usage => size
  | .allocations => 1
  | _ => 0

/-- What a change of size adds to the balances. -/
def grown (oldSize newSize : ℕ) : Amounts
  | .usage => newSize - oldSize
  | _ => 0

/-- What the return of a block adds to the balances. -/
def takenBack : Amounts
  | .frees => -1
  | _ => 0

section Steps

variable {τ : Type} {s s' : Shared τ} {t : τ}

/-- The balances depend on the counters, the blocks and the chains. -/
theorem balance_congr (hcounters : s'.tracker.counters = s.tracker.counters)
    (hsize : s'.tracker.sizeHistogram = s.tracker.sizeHistogram)
    (htouched : s'.tracker.unsafeSizeHistogram = s.tracker.unsafeSizeHistogram)
    (hblocks : s'.blocks = s.blocks) (hborn : s'.history.born = s.history.born)
    (hlatest : s'.history.latest = s.history.latest) : balance s' = balance s := by
  funext account
  rcases account with _ | _ | _ | _ | _ <;>
    simp only [balance, Shared.chainBytes, hcounters, hsize, htouched, hblocks, hborn, hlatest]

theorem cast_counters_add (h : HeapTracker) (c c' : HeapCounter) (n : ℕ) :
    ((h.add c n).counters c' : ZMod (2 ^ 64))
      = h.counters c' + if c' = c then (n : ZMod (2 ^ 64)) else 0 := by
  rw [HeapTracker.counters_add]
  split
  · next heq => rw [heq, ZMod.natCast_mod, Nat.cast_add]
  · rw [add_zero]

theorem cast_counters_sub (h : HeapTracker) (c c' : HeapCounter) {n : ℕ} (hn : n ≤ 2 ^ 64) :
    ((h.sub c n).counters c' : ZMod (2 ^ 64))
      = h.counters c' + if c' = c then -(n : ZMod (2 ^ 64)) else 0 := by
  rw [HeapTracker.counters_sub]
  split
  · next heq =>
    rw [heq, ZMod.natCast_mod, Nat.cast_add, Nat.cast_sub hn, ZMod.natCast_self, zero_sub]
  · rw [add_zero]

theorem histogramSum_bump (figures : Fin objSizeNum → ℕ) (i : Fin objSizeNum) :
    histogramSum (Function.update figures i ((figures i + 1) % 2 ^ 64))
      = histogramSum figures + 1 := by
  rw [histogramSum, histogramSum, ← Service.sum_update_group _ i]
  refine Finset.sum_congr rfl fun j _ ↦ ?_
  by_cases hj : j = i
  · subst hj
    rw [Function.update_self, Function.update_self, ZMod.natCast_mod, Nat.cast_add, Nat.cast_one]
  · rw [Function.update_of_ne hj, Function.update_of_ne hj]

/-- What an atomic step of a counter adds, as an amount of the counter itself. -/
theorem balance_counters {f : HeapTracker} {c : HeapCounter} {d : ZMod (2 ^ 64)}
    (hcounters : ∀ c', (f.counters c' : ZMod (2 ^ 64))
      = (s.tracker.counters c' : ZMod (2 ^ 64)) + if c' = c then d else 0)
    (hsize : f.sizeHistogram = s.tracker.sizeHistogram)
    (htouched : f.unsafeSizeHistogram = s.tracker.unsafeSizeHistogram) :
    balance { s with tracker := f } = balance s + c.charge d := by
  have hsum : Shared.chainBytes { s with tracker := f } = s.chainBytes := rfl
  funext account
  rcases account with _ | _ | _ | _ | _ <;> rcases c with _ | _ | _ | _ | _ | _ | _ | _ | _ <;>
    simp only [balance, hsum, hcounters, hsize, htouched, HeapCounter.charge, Pi.add_apply,
      reduceCtorEq, true_or, or_true, or_self, if_true, if_false] <;> ring

theorem balance_classify (size : ℕ) (isUnsafe : Bool) :
    balance { s with tracker := s.tracker.classify size isUnsafe }
      = balance s + classified isUnsafe := by
  funext account
  rcases isUnsafe with _ | _ <;> rcases account with _ | _ | _ | _ | _ <;>
    simp only [balance, HeapTracker.classify, Bool.false_eq_true, if_true, if_false, classified,
      histogramSum_bump, Pi.add_apply, Shared.chainBytes] <;> ring

theorem balance_obtained {size answer : ℕ} (hnone : s.blocks.get? answer = none)
    (hfree : s.blocks.Free answer size) :
    balance (s.obtained t size answer hfree) = balance s + handedOut size := by
  have hsize : (s.obtained t size answer hfree).blocks.size = s.blocks.size + 1 :=
    RangeMap.size_put hfree hnone
  have hborn : (s.obtained t size answer hfree).history.born = s.history.born + 1 := rfl
  have htracker : (s.obtained t size answer hfree).tracker = s.tracker := rfl
  funext account
  rcases account with _ | _ | _ | _ | _ <;>
    simp only [balance, Chains.chainBytes_obtained, hsize, hborn, htracker, handedOut, Pi.add_apply,
      Nat.cast_add, Nat.cast_one] <;> ring

theorem balance_erase {ptr : ℕ} {blk : Block τ} (hblk : s.blocks.get? ptr = some blk) :
    balance { s with
      blocks := s.blocks.erase ptr
      history := { s.history with unrecorded := s.history.unrecorded.erase ptr } }
      = balance s + takenBack := by
  have hsize : (s.blocks.size : ZMod (2 ^ 64)) = (s.blocks.erase ptr).size + 1 := by
    rw [← RangeMap.size_erase hblk, Nat.cast_add, Nat.cast_one]
  funext account
  rcases account with _ | _ | _ | _ | _ <;>
    simp only [balance, Shared.chainBytes, hsize, takenBack, Pi.add_apply] <;> ring

theorem balance_resized [DecidableEq τ] (hc : Chains s) {ptr newSize answer : ℕ} {blk : Block τ}
    (hblk : s.blocks.get? ptr = some blk) (hnone : (s.blocks.erase ptr).get? answer = none)
    (hfree : (s.blocks.erase ptr).Free answer newSize) :
    balance (s.resized t ptr newSize answer blk hfree) = balance s + grown blk.size newSize := by
  have hsize : (s.resized t ptr newSize answer blk hfree).blocks.size = s.blocks.size := by
    rw [← RangeMap.size_erase hblk]
    exact RangeMap.size_put hfree hnone
  have hborn : (s.resized t ptr newSize answer blk hfree).history.born = s.history.born := rfl
  have htracker : (s.resized t ptr newSize answer blk hfree).tracker = s.tracker := rfl
  have hbytes : ((s.resized t ptr newSize answer blk hfree).chainBytes : ZMod (2 ^ 64))
      = s.chainBytes + newSize - blk.size := by
    rw [eq_sub_iff_add_eq, ← Nat.cast_add, ← Nat.cast_add, hc.chainBytes_resized hblk hfree]
  funext account
  rcases account with _ | _ | _ | _ | _ <;>
    simp only [balance, hbytes, hsize, hborn, htracker, grown, Pi.add_apply] <;> ring

end Steps

/-! ## What the calls owe -/

section Calls

variable {τ α : Type} {t : τ} {ptr size answer : ℕ} {n : Amounts} {s : Shared τ}

/-- A program of a thread that relies on its own blocks. -/
abbrev Owes (t : τ) (Q : α → Amounts → Shared τ → Prop) (p : Program (Shared τ) α) (n : Amounts)
    (s : Shared τ) : Prop := p.Owing Chains (Rely t) balance Q n s

/-- What a thread knows of the blocks, whatever the tracker does. -/
structure Stable (t : τ) (K : Shared τ → Prop) : Prop where
  rely : ∀ {s s'}, K s → Rely t s s' → K s'
  blocks : ∀ {s s'}, K s → s'.blocks = s.blocks → K s'

/-- The thread owns a block of this size. -/
def Holds (t : τ) (ptr size : ℕ) (s : Shared τ) : Prop :=
  ∃ blk, s.blocks.get? ptr = some blk ∧ blk.owner = t ∧ blk.size = size

theorem stable_true : Stable t fun _ ↦ True := ⟨fun _ _ ↦ trivial, fun _ _ ↦ trivial⟩

theorem stable_holds : Stable t (Holds t ptr size) where
  rely := by
    rintro s s' ⟨blk, hblk, hown, hsize⟩ hr
    exact ⟨blk, (hr.blocks hown).mpr hblk, hown, hsize⟩
  blocks := by
    rintro s s' ⟨blk, hblk, hown, hsize⟩ heq
    exact ⟨blk, by rw [heq, hblk], hown, hsize⟩

section Tracker

variable {K : Shared τ → Prop} (hK : Stable t K) (h : K s)

include hK h

/-- A step that changes no block. -/
theorem owes_step {f : Shared τ → α × Shared τ} {d : Amounts}
    (hblocks : ∀ s, (f s).2.blocks = s.blocks) (hadd : ∀ s, balance (f s).2 = balance s + d) :
    Owes t (fun _ m s' ↦ m = n + d ∧ K s') (.rmw f) n s :=
  Program.owing_step hK.rely (fun s hs ↦ hK.blocks hs (hblocks s)) (fun s _ _ ↦ hadd s) h

theorem owes_fetchAdd (c : HeapCounter) (k : ℕ) :
    Owes t (fun _ m s' ↦ m = n + c.charge k ∧ K s') (fetchAdd t c k) n s :=
  owes_step hK h (fun _ ↦ rfl) fun s ↦
    balance_counters (fun c' ↦ cast_counters_add s.tracker c c' k) rfl rfl

theorem owes_fetchSub (c : HeapCounter) {k : ℕ} (hk : k ≤ 2 ^ 64) :
    Owes t (fun _ m s' ↦ m = n + c.charge (-k) ∧ K s') (fetchSub t c k) n s :=
  owes_step hK h (fun _ ↦ rfl) fun s ↦
    balance_counters (fun c' ↦ cast_counters_sub s.tracker c c' hk) rfl rfl

theorem owes_classify (isUnsafe : Bool) :
    Owes t (fun _ m s' ↦ m = n + classified isUnsafe ∧ K s') (classifyObjBySize t size isUnsafe) n s :=
  owes_step hK h (fun _ ↦ rfl) fun _ ↦ balance_classify size isUnsafe

/-- A step of the maps. -/
theorem owes_same {f : Shared τ → α × Shared τ} (hblocks : ∀ s, (f s).2.blocks = s.blocks)
    (hsame : ∀ s, balance (f s).2 = balance s) :
    Owes t (fun _ m s' ↦ m = n ∧ K s') (.rmw f) n s := by
  have hstep := owes_step (n := n) hK h hblocks fun s ↦ (hsame s).trans (add_zero _).symm
  exact Program.Owing.mono hstep fun _ m s' hm ↦ ⟨hm.1.trans (add_zero n), hm.2⟩

theorem owes_insertObj :
    Owes t (fun r m s' ↦ r.2 = false ∧ m = n ∧ K s') ((insertObj t ptr size).run false) n s := by
  have hrun : (insertObj t ptr size).run false
      = (fun _ ↦ ((), false)) <$> liveInsert t ptr size := rfl
  rw [hrun]
  refine Program.Owing.map ((owes_same hK h (fun _ ↦ rfl) fun s ↦ ?_).mono fun _ m s' hm ↦
    ⟨rfl, hm⟩)
  exact balance_congr rfl rfl rfl rfl rfl rfl

theorem owes_removeObj [DecidableEq τ] :
    Owes t (fun r m s' ↦ r.2 = false ∧ m = n ∧ K s') ((removeObj t ptr).run false) n s := by
  have hrun : (removeObj t ptr).run false = (do
      liveRemove t ptr
      (fun _ ↦ ((), false)) <$> trackerStep t (·.removeUnsafe ptr)) := rfl
  rw [hrun]
  refine Program.Owing.bind (Rely.refl t) (owes_same hK h (fun _ ↦ rfl) fun s ↦
    balance_congr rfl rfl rfl rfl (s.noteRemoved_born t ptr) (s.noteRemoved_latest t ptr)) ?_
  rintro _ m s₁ ⟨rfl, h₁⟩
  refine Program.Owing.map ((owes_same hK h₁ (fun _ ↦ rfl) fun s ↦ ?_).mono fun _ m s' hm ↦
    ⟨rfl, hm⟩)
  exact balance_congr rfl rfl rfl rfl rfl rfl

end Tracker

theorem owes_systemAlloc :
    Owes t (fun newPtr m _ ↦ newPtr = 0 ∧ m = n ∨ newPtr ≠ 0 ∧ m = n + handedOut size)
      (systemAlloc t size answer) n s := by
  refine Program.owing_rmw fun s₁ _ _ s₂ _ _ ↦ ?_
  by_cases hgrant : s₁.blocks.get? answer = none ∧ s₁.blocks.Free answer size
  · have hadd := balance_obtained (t := t) hgrant.1 hgrant.2
    rw [Shared.obtained] at hadd
    simp only [dif_pos hgrant]
    rw [hadd, add_sub_cancel_left]
    exact .inr ⟨Nat.pos_iff_ne_zero.mp hgrant.2.1.1, rfl⟩
  · simp only [dif_neg hgrant, sub_self, add_zero]
    exact .inl ⟨trivial, trivial⟩

theorem owes_systemDealloc (h : Holds t ptr size s) :
    Owes t (fun _ m _ ↦ m = n + takenBack) (systemDealloc t ptr) n s := by
  refine Program.owing_rmw fun s₁ hr₁ _ s₂ _ _ ↦ ?_
  obtain ⟨blk, hblk, -⟩ := stable_holds.rely h hr₁
  rw [balance_erase hblk, add_sub_cancel_left]

theorem owes_systemRealloc [DecidableEq τ] {newSize : ℕ} (h : Holds t ptr size s) :
    Owes t (fun newPtr m _ ↦ newPtr = 0 ∧ m = n ∨ newPtr ≠ 0 ∧ m = n + grown size newSize)
      (systemRealloc t ptr newSize answer) n s := by
  refine Program.owing_rmw fun s₁ hr₁ hc₁ s₂ _ _ ↦ ?_
  obtain ⟨blk, hblk, -, hsize⟩ := stable_holds.rely h hr₁
  simp only [hblk]
  by_cases hgrant : (s₁.blocks.erase ptr).get? answer = none ∧
      (s₁.blocks.erase ptr).Free answer newSize
  · have hadd := balance_resized (t := t) hc₁ hblk hgrant.1 hgrant.2
    rw [Shared.resized, hsize] at hadd
    simp only [dif_pos hgrant]
    rw [hadd, add_sub_cancel_left]
    exact .inr ⟨Nat.pos_iff_ne_zero.mp hgrant.2.1.1, rfl⟩
  · simp only [dif_neg hgrant, sub_self, add_zero]
    exact .inl ⟨trivial, trivial⟩

/-! ### The calls pay what they owe -/

theorem Owes.seq {β : Type} {P : α → Amounts → Shared τ → Prop} {Q : β → Amounts → Shared τ → Prop}
    {p : Program (Shared τ) α} {f : α → Program (Shared τ) β} (h : Owes t P p n s)
    (hf : ∀ a m s', P a m s' → Owes t Q (f a) m s') : Owes t Q (p >>= f) n s :=
  Program.Owing.bind (Rely.refl t) h hf

theorem charge_uncounted {c : HeapCounter} (d : ZMod (2 ^ 64))
    (hc : c = .unsafeMem ∨ c = .totalMemInsts ∨ c = .unsafeLoad ∨ c = .unsafeStore) :
    n + c.charge d = n := by
  funext account
  rcases hc with rfl | rfl | rfl | rfl <;> rcases account with _ | _ | _ | _ | _ <;>
    simp [HeapCounter.charge]

/-- The counters that take part in no account. -/
theorem owes_fetchAdd_uncounted {c : HeapCounter} (k : ℕ)
    (hc : c = .unsafeMem ∨ c = .totalMemInsts ∨ c = .unsafeLoad ∨ c = .unsafeStore) :
    Owes t (fun _ m _ ↦ m = n) (fetchAdd t c k) n s := by
  refine Program.Owing.mono (owes_fetchAdd stable_true trivial c k) fun _ m _ hm ↦ ?_
  rw [hm.1, charge_uncounted _ hc]

theorem handedOut_paid (size : ℕ) : n + handedOut size
    + HeapCounter.totalUsage.charge size
    + HeapCounter.totalAlloc.charge (1 : ℕ) + classified false = n := by
  funext account
  rcases account with _ | _ | _ | _ | _ <;> simp [handedOut, HeapCounter.charge, classified]

theorem owes_alloc (layout : Layout) :
    Owes t (fun _ m _ ↦ m = n) ((Heap.alloc t layout answer).run false) n s := by
  rw [alloc_run]
  refine owes_systemAlloc.seq fun ptr m s₁ h₁ ↦ ?_
  rcases h₁ with ⟨hnull, rfl⟩ | ⟨hptr, rfl⟩
  · rw [if_pos hnull]
    exact Program.owing_done fun _ _ _ ↦ rfl
  · rw [if_neg hptr]
    refine Owes.seq (owes_fetchAdd stable_true trivial _ _) ?_
    rintro _ _ s₂ ⟨rfl, -⟩
    refine Owes.seq (owes_fetchAdd stable_true trivial _ _) ?_
    rintro _ _ s₃ ⟨rfl, -⟩
    refine Owes.seq (owes_classify stable_true trivial _) ?_
    rintro _ _ s₄ ⟨rfl, -⟩
    rw [handedOut_paid]
    exact Program.Owing.map ((owes_insertObj stable_true trivial).mono fun _ _ _ hr ↦ hr.2.1)

theorem takenBack_paid :
    n + HeapCounter.totalDealloc.charge (1 : ℕ) + takenBack = n := by
  funext account
  rcases account with _ | _ | _ | _ | _ <;> simp [takenBack, HeapCounter.charge]

theorem owes_dealloc [DecidableEq τ] (layout : Layout) (h : Holds t ptr layout.size s) :
    Owes t (fun _ m _ ↦ m = n) ((Heap.dealloc t ptr layout).run false) n s := by
  have hrun : (Heap.dealloc t ptr layout).run false = (do
      fetchAdd t .totalDealloc 1
      let r ← (removeObj t ptr).run false
      (fun _ ↦ ((), r.2)) <$> systemDealloc t ptr) := by
    simp [Heap.dealloc, map_eq_pure_bind]
  rw [hrun]
  refine Owes.seq (owes_fetchAdd stable_holds h _ _) ?_
  rintro _ _ s₁ ⟨rfl, h₁⟩
  refine Owes.seq (owes_removeObj stable_holds h₁) ?_
  rintro r _ s₂ ⟨-, rfl, h₂⟩
  refine Program.Owing.map ((owes_systemDealloc h₂).mono fun _ m _ hm ↦ ?_)
  rw [hm, takenBack_paid]

theorem owes_adjust {oldSize : ℕ} (newSize : ℕ) (hle : oldSize ≤ 2 ^ 64) :
    Owes t (fun _ m _ ↦ m = n + HeapCounter.totalUsage.charge (newSize - oldSize))
      (if newSize > oldSize then fetchAdd t .totalUsage (newSize - oldSize)
        else fetchSub t .totalUsage (oldSize - newSize)) n s := by
  split
  · next hgt =>
    refine Program.Owing.mono (owes_fetchAdd stable_true trivial _ _) fun _ m _ hm ↦ ?_
    rw [hm.1, Nat.cast_sub hgt.le]
  · next hgt =>
    refine Program.Owing.mono (owes_fetchSub stable_true trivial _ (by omega)) fun _ m _ hm ↦ ?_
    rw [hm.1, Nat.cast_sub (by omega), neg_sub]

theorem grown_paid (oldSize newSize : ℕ) : n + grown oldSize newSize
    + HeapCounter.totalUsage.charge (newSize - oldSize) = n := by
  funext account
  rcases account with _ | _ | _ | _ | _ <;>
    simp only [grown, HeapCounter.charge, Pi.add_apply, reduceCtorEq, or_self, if_true, if_false] <;>
    ring

theorem moved_paid : n + HeapCounter.totalRealloc.charge (1 : ℕ)
    + classified false = n := by
  funext account
  rcases account with _ | _ | _ | _ | _ <;> simp [HeapCounter.charge, classified]

theorem owes_realloc [DecidableEq τ] (layout : Layout) {newSize : ℕ}
    (h : Holds t ptr layout.size s) (hle : layout.size ≤ 2 ^ 64) :
    Owes t (fun _ m _ ↦ m = n) ((Heap.realloc t ptr layout newSize answer).run false) n s := by
  have hadjust : ∀ (r : ℕ × Bool) (s : Shared τ), Owes t (fun _ m _ ↦ m = n)
      ((fun _ ↦ r) <$> (if newSize > layout.size
        then fetchAdd t .totalUsage (newSize - layout.size)
        else fetchSub t .totalUsage (layout.size - newSize))) (n + grown layout.size newSize) s := by
    intro r s
    refine Program.Owing.map ((owes_adjust newSize hle).mono fun _ m _ hm ↦ ?_)
    rw [hm, grown_paid]
  rw [realloc_run]
  refine (owes_systemRealloc h).seq fun newPtr m s₁ h₁ ↦ ?_
  rcases h₁ with ⟨hnull, rfl⟩ | ⟨hne, rfl⟩
  · rw [if_pos hnull]
    exact Program.owing_done fun _ _ _ ↦ rfl
  · rw [if_neg hne]
    by_cases hsame : newPtr = ptr
    · rw [if_pos hsame]
      refine Owes.seq (owes_insertObj stable_true trivial) ?_
      rintro r _ s₂ ⟨-, rfl, -⟩
      exact hadjust _ s₂
    · rw [if_neg hsame]
      refine Owes.seq (owes_removeObj stable_true trivial) ?_
      rintro r _ s₂ ⟨hflag, rfl, -⟩
      refine Owes.seq (owes_fetchAdd stable_true trivial _ _) ?_
      rintro _ _ s₃ ⟨rfl, -⟩
      refine Owes.seq (owes_classify stable_true trivial _) ?_
      rintro _ _ s₄ ⟨rfl, -⟩
      rw [hflag, moved_paid]
      refine Owes.seq (owes_insertObj stable_true trivial) ?_
      rintro r _ s₅ ⟨-, rfl, -⟩
      exact hadjust _ s₅

theorem owes_accessHeapObj :
    Owes t (fun _ m _ ↦ m = n) ((accessHeapObj t ptr).run false) n s := by
  have hrun : (accessHeapObj t ptr).run false = (do
      let obj ← lookupObj t ptr
      if obj.isSome then (fun _ ↦ ((), false)) <$> fetchAdd t .totalMemInsts 1
      else return ((), false)) := by
    have hfind : (findHeapObj t ptr).run false
        = lookupObj t ptr >>= fun obj ↦ .done (obj, false) := rfl
    rw [accessHeapObj, ThreadM.run_bind, hfind, bind_assoc]
    refine bind_congr fun obj ↦ ?_
    rcases obj with _ | obj <;> rfl
  rw [hrun]
  refine Owes.seq (owes_same stable_true trivial (fun _ ↦ rfl) fun _ ↦ rfl) ?_
  rintro obj _ s₁ ⟨rfl, -⟩
  rcases obj with _ | obj
  · exact Program.owing_done fun _ _ _ ↦ rfl
  · exact Program.Owing.map (owes_fetchAdd_uncounted _ (by simp))

theorem touched_paid : n + HeapCounter.totalUnsafeObjs.charge (1 : ℕ)
    + classified true = n := by
  funext account
  rcases account with _ | _ | _ | _ | _ <;> simp [HeapCounter.charge, classified]

theorem owes_countUnsafeMem (base : ℕ) :
    Owes t (fun _ m _ ↦ m = n) (countUnsafeMem t base size) n s := by
  have hadd : ∀ s : Shared τ, balance { s with tracker := s.tracker.add .unsafeMem size }
      = balance s := by
    intro s
    rw [balance_counters (fun c' ↦ cast_counters_add s.tracker .unsafeMem c' size) rfl rfl,
      charge_uncounted _ (.inl rfl)]
  have hsame : ∀ s : Shared τ, balance { s with
      tracker := s.tracker.add .unsafeMem size
      history := s.noteCounted base size } = balance s := by
    intro s
    rw [← hadd s]
    exact balance_congr rfl rfl rfl rfl (s.noteCounted_born base size)
      (s.noteCounted_latest base size)
  have hstep := owes_same (t := t) (n := n) (s := s) stable_true trivial
    (f := fun s ↦ ((), { s with
      tracker := s.tracker.add .unsafeMem size
      history := s.noteCounted base size })) (fun _ ↦ rfl) hsame
  exact Program.Owing.mono hstep fun _ _ _ hm ↦ hm.1

theorem owes_accessUnsafeHeapObj (isLoad : Bool) :
    Owes t (fun _ m _ ↦ m = n) ((accessUnsafeHeapObj t ptr isLoad).run false) n s := by
  have hlast : ∀ s : Shared τ, Owes t (fun _ m _ ↦ m = n) ((fun _ ↦ ((), false)) <$>
      fetchAdd t (if isLoad then .unsafeLoad else .unsafeStore) 1) n s := fun s ↦
    Program.Owing.map (owes_fetchAdd_uncounted _ (by rcases isLoad with _ | _ <;> simp))
  rw [accessUnsafeHeapObj_run]
  refine Owes.seq (owes_same stable_true trivial (fun _ ↦ rfl) fun _ ↦ rfl) ?_
  rintro obj _ s₁ ⟨rfl, -⟩
  rcases obj with _ | ⟨base, size⟩
  · exact Program.owing_done fun _ _ _ ↦ rfl
  · refine Owes.seq (owes_same stable_true trivial (fun _ ↦ rfl) fun s ↦
      balance_congr rfl rfl rfl rfl rfl rfl) ?_
    rintro fresh _ s₂ ⟨rfl, -⟩
    rcases fresh with _ | _
    · exact hlast s₂
    · refine (owes_countUnsafeMem base).seq ?_
      rintro _ _ s₃ rfl
      refine Owes.seq (owes_fetchAdd stable_true trivial _ _) ?_
      rintro _ _ s₄ ⟨rfl, -⟩
      refine Owes.seq (owes_classify stable_true trivial _) ?_
      rintro _ _ s₅ ⟨rfl, -⟩
      rw [touched_paid]
      exact hlast s₅

end Calls

/-! ## Chains in every state of a run -/

section ChainSteps

variable {τ : Type} {t : τ} {ptr size answer : ℕ}

/-- A step that keeps what is known of the chains. -/
def KeepsChains (s s' : Shared τ) : Prop := Chains s → Chains s'

/-- A program all of whose steps do. -/
abbrev ChainSteps {α : Type} (p : Program (Shared τ) α) : Prop :=
  p.Steps (fun _ _ ↦ True) KeepsChains

theorem KeepsBlocks.chains {s s' : Shared τ} (hkeeps : KeepsBlocks s s') : KeepsChains s s' := by
  intro h
  refine h.of_subset hkeeps.born hkeeps.latest fun hb ↦ ?_
  rwa [hkeeps.blocks] at hb

theorem BlockSteps.chains {α : Type} {m : ThreadM Bool (Shared τ) α} (hm : BlockSteps m) :
    m.Steps (fun _ _ ↦ True) KeepsChains := fun skip ↦ (hm skip).mono fun _ _ h ↦ h.chains

theorem Forwards.chains {p : Program (Shared τ) ℕ} {m : ThreadM Bool (Shared τ) ℕ}
    (hm : Forwards p m) (hp : ChainSteps p) : m.Steps (fun _ _ ↦ True) KeepsChains := by
  obtain ⟨tail, rfl, htail⟩ := hm
  exact .bind (ThreadM.steps_lift hp) fun ptr ↦ (htail ptr).1.chains

theorem chainSteps_systemAlloc : ChainSteps (systemAlloc t size answer) := by
  refine Program.steps_rmw fun s _ h ↦ ?_
  by_cases hgrant : s.blocks.get? answer = none ∧ s.blocks.Free answer size
  · simp only [dif_pos hgrant]
    exact h.obtained (t := t) hgrant.2
  · simpa only [dif_neg hgrant] using h

variable [DecidableEq τ]

theorem chainSteps_dealloc (layout : Layout) :
    (Heap.dealloc t ptr layout).Steps (fun _ _ ↦ True) KeepsChains := by
  have hlast : ChainSteps (systemDealloc t ptr) :=
    Program.steps_rmw fun s _ h ↦ h.of_subset rfl rfl fun {b blk} hb ↦ by
      change (s.blocks.erase ptr).get? b = some blk at hb
      rw [RangeMap.get?_erase] at hb
      exact (Option.ite_none_left_eq_some.mp hb).2
  refine .bind ThreadM.steps_get fun skip ↦ ?_
  split
  · exact .bind (blockSteps_tracker _).chains fun _ ↦
      .bind blockSteps_removeObj.chains fun _ ↦ ThreadM.steps_lift hlast
  · exact ThreadM.steps_lift hlast

theorem chainSteps_systemRealloc {newSize : ℕ} :
    ChainSteps (systemRealloc t ptr newSize answer) := by
  refine Program.steps_rmw fun s _ h ↦ ?_
  rcases hblk : s.blocks.get? ptr with _ | blk
  · simpa only [hblk] using h
  · by_cases hgrant : (s.blocks.erase ptr).get? answer = none ∧
        (s.blocks.erase ptr).Free answer newSize
    · simp only [dif_pos hgrant]
      exact h.resized (t := t) hblk hgrant.2
    · simpa only [dif_neg hgrant] using h

theorem chainSteps_code (call : Call) :
    (call.code t).Steps (fun _ _ ↦ True) KeepsChains := by
  rcases call with ⟨layout, answer⟩ | ⟨layout, answer⟩ | ⟨ptr, layout⟩ |
    ⟨ptr, layout, newSize, answer⟩ | ptr | ⟨ptr, isLoad⟩
  · exact .bind ((forwards_alloc layout answer).chains chainSteps_systemAlloc) fun _ ↦
      ThreadM.steps_pure _
  · rw [Call.code, allocZeroed_eq_alloc]
    exact .bind ((forwards_alloc layout answer).chains chainSteps_systemAlloc) fun _ ↦
      ThreadM.steps_pure _
  · exact chainSteps_dealloc layout
  · exact .bind ((forwards_realloc layout newSize answer).chains chainSteps_systemRealloc) fun _ ↦
      ThreadM.steps_pure _
  · exact blockSteps_accessHeapObj.chains
  · exact (blockSteps_accessUnsafeHeapObj isLoad).chains

/-- No step of a run spoils the chains. -/
theorem chains_run (ms : List (Move τ Call)) : Chains (system.run start ms).shared := by
  induction ms using List.reverseRecOn with
  | nil => exact .new
  | append_singleton ms m ih =>
    have hcode : ∀ (t : τ) call skip, ChainSteps (system.code t call skip) := fun t call skip ↦
      .bind (chainSteps_code call skip) fun _ ↦ trivial
    have hidle : ∀ t : τ, ChainSteps (start.thread t) := fun _ ↦ trivial
    exact system.run_steps (fun _ h ↦ h) hcode hidle (fun _ _ _ _ ↦ trivial) List.prefix_rfl ih

end ChainSteps

/-! ## Between calls -/

section Runs

variable {τ : Type} [DecidableEq τ]

/-- A call that is allowed owes nothing when it returns. -/
theorem owes_system {t : τ} {call : Call} {skip : Bool} {s : Shared τ}
    (hs : Settled t skip s) (hall : system.allowed t call skip s = true) :
    Owes t (fun _ n _ ↦ n = 0) (system.code t call skip) 0 s := by
  obtain ⟨rfl, -⟩ := hs
  have hall' : call.Allowed t s := of_decide_eq_true hall
  refine Program.Owing.map ?_
  rcases call with ⟨layout, answer⟩ | ⟨layout, answer⟩ | ⟨ptr, layout⟩ |
    ⟨ptr, layout, newSize, answer⟩ | ptr | ⟨ptr, isLoad⟩
  · exact Program.Owing.map (owes_alloc layout)
  · rw [Call.code, allocZeroed_eq_alloc]
    exact Program.Owing.map (owes_alloc layout)
  · exact owes_dealloc layout (owns_iff.mp hall')
  · obtain ⟨blk, hblk, -, hsize⟩ := owns_iff.mp hall'.1
    have hbelow := s.blocks.below hblk
    exact Program.Owing.map (owes_realloc layout (owns_iff.mp hall'.1) (by omega))
  · exact owes_accessHeapObj
  · exact owes_accessUnsafeHeapObj isLoad

omit [DecidableEq τ] in
theorem balance_new : balance (.new : Shared τ) = 0 := by
  have hsize : (Shared.new : Shared τ).blocks.size = 0 := Std.ExtTreeMap.size_empty
  have hborn : (Shared.new : Shared τ).history.born = 0 := rfl
  have hbytes : (Shared.new : Shared τ).chainBytes = 0 := rfl
  funext account
  rcases account with _ | _ | _ | _ | _ <;>
    simp only [balance, hsize, hborn, hbytes] <;> simp [Shared.new, HeapTracker.new, histogramSum]

/-- The counters agree with each other, with the chains and with the live blocks, in the arithmetic
of the counters. -/
structure Reconciled (s : Shared τ) : Prop where
  usage : s.tracker.counters .totalUsage ≡ s.chainBytes [MOD 2 ^ 64]
  allocations : s.tracker.counters .totalAlloc ≡ s.history.born [MOD 2 ^ 64]
  frees : s.blocks.size + s.tracker.counters .totalDealloc
    ≡ s.tracker.counters .totalAlloc [MOD 2 ^ 64]
  classes : ∑ i, s.tracker.sizeHistogram i
    ≡ s.tracker.counters .totalAlloc + s.tracker.counters .totalRealloc [MOD 2 ^ 64]
  unsafeClasses : ∑ i, s.tracker.unsafeSizeHistogram i
    ≡ s.tracker.counters .totalUnsafeObjs [MOD 2 ^ 64]

omit [DecidableEq τ] in
theorem reconciled_of_balance {s : Shared τ} (h : balance s = 0) : Reconciled s := by
  have hzero : ∀ account, balance s account = 0 := congrFun h
  have hallocations := sub_eq_zero.mp (hzero .allocations)
  constructor
  · rw [← ZMod.natCast_eq_natCast_iff]
    exact (sub_eq_zero.mp (hzero .usage)).symm
  · rw [← ZMod.natCast_eq_natCast_iff]
    exact hallocations.symm
  · rw [← ZMod.natCast_eq_natCast_iff, Nat.cast_add, ← hallocations]
    exact sub_eq_zero.mp (hzero .frees)
  · rw [← ZMod.natCast_eq_natCast_iff, Nat.cast_add, Nat.cast_sum]
    exact (sub_eq_zero.mp (hzero .classes)).symm
  · rw [← ZMod.natCast_eq_natCast_iff, Nat.cast_sum]
    exact (sub_eq_zero.mp (hzero .unsafeClasses)).symm

variable [Fintype τ]

theorem balance_between_calls (ms : List (Move τ Call))
    (hidle : ∀ t, ∃ skip, (system.run start ms).Idle t skip) :
    balance (system.run start ms).shared = 0 := by
  have hstart : ∀ t : τ, Owes t (fun _ n _ ↦ n = 0) (start.thread t) 0 start.shared :=
    fun _ ↦ Program.owing_done fun _ _ _ ↦ rfl
  rw [← balance_new]
  exact system.balance_of_idle Rely.refl (fun _ ↦ Rely.trans) hstart chains_run
    (fun ms m t hm ↦ Contract.rely_run (C := contract) system Settled wp_system start Inv.new
      settled_start ms m hm)
    (fun ms t call skip hskip hall ↦ owes_system (settled_run ms hskip) hall) hidle

/-- In every run of any number of threads, whenever no call is in progress, `total_usage` is the sum
of the latest sizes of all chains, the blocks allocated are those freed and those live, and the
histograms add up to the counters. Where no record of another thread's block has been removed, the
entries of the map are as many as the blocks allocated and not freed. -/
theorem counters_reconciled (ms : List (Move τ Call))
    (hidle : ∀ t, ∃ skip, (system.run start ms).Idle t skip) :
    Reconciled (system.run start ms).shared ∧
      ((system.run start ms).shared.history.clobbered = [] →
        (system.run start ms).shared.tracker.liveObjs.size
            + (system.run start ms).shared.tracker.counters .totalDealloc
          ≡ (system.run start ms).shared.tracker.counters .totalAlloc [MOD 2 ^ 64]) := by
  have hreconciled := reconciled_of_balance (balance_between_calls ms hidle)
  refine ⟨hreconciled, fun hclean ↦ ?_⟩
  rw [(exact_run ms hclean hidle).size_liveObjs]
  exact hreconciled.frees

/-- Also when the record of another thread's block is lost. -/
theorem counters_reconciled_movingRealloc :
    (system.run start (movingRealloc false)).shared.history.clobbered ≠ [] ∧
      Reconciled (system.run start (movingRealloc false)).shared := by
  refine ⟨?_, (counters_reconciled (movingRealloc false) (movingRealloc_idle false)).1⟩
  decide +kernel

end Runs

end UnsafePerf.Heap
