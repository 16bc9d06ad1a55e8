import UnsafePerf.Heap.Sequential

/-!
# The map of live objects is exact

On one thread the map of live objects has, after every call, exactly the live blocks with their
present sizes. The blocks are disjoint, so the lookup by address, which reads only the last entry
at or below it, finds the block that contains the address and finds nothing elsewhere.

Which blocks are live is for the application to say. `held` tells it from the calls and the answers
of the system allocator, and does not look at the tracker or at what it passes on. The blocks the
system allocator has after the code has run are the same (`agrees_runCalls`).
-/

open Concurrency Ranges

namespace UnsafePerf.Heap

section Exact

variable {τ : Type}

/-- The map of live objects has exactly the live blocks, with their sizes. -/
def Exact (s : Shared τ) : Prop := ∀ b : ℕ, s.tracker.liveObjs[b]? = (s.blocks.get? b).map Block.size

namespace Exact

variable {s : Shared τ}

/-- An entry of an exact map is a live block. -/
theorem block (h : Exact s) {b n : ℕ} (hb : s.tracker.liveObjs[b]? = some n) :
    ∃ blk, s.blocks.get? b = some blk ∧ blk.size = n :=
  Option.map_eq_some_iff.mp ((h b).symm.trans hb)

/-- The recorded ranges are disjoint. -/
theorem apart (h : Exact s) {b b' n n' : ℕ} (hb : s.tracker.liveObjs[b]? = some n)
    (hb' : s.tracker.liveObjs[b']? = some n') (hne : b ≠ b') : Apart b n b' n' := by
  obtain ⟨blk, hblk, rfl⟩ := h.block hb
  obtain ⟨blk', hblk', rfl⟩ := h.block hb'
  exact s.blocks.apart hblk hblk' hne

/-- The end of a recorded range does not wrap. -/
theorem lookup_eq (h : Exact s) (p : ℕ) :
    s.tracker.lookup p = (floorEntry s.tracker.liveObjs p).filter fun e ↦ p < e.1 + e.2 := by
  rw [HeapTracker.lookup]
  cases hfloor : floorEntry s.tracker.liveObjs p with
  | none => rfl
  | some e =>
    obtain ⟨blk, hblk, hsize⟩ := h.block (floorEntry_spec (k := e.1) (v := e.2) hfloor).1
    have hbelow : e.1 + e.2 < 2 ^ 64 := hsize ▸ s.blocks.below hblk
    simp only [Option.filter_some, Nat.mod_eq_of_lt hbelow]

/-- The lookup finds the block that contains the address. -/
theorem lookup_eq_some_iff (h : Exact s) {p b n : ℕ} :
    s.tracker.lookup p = some (b, n) ↔
      (s.blocks.get? b).map Block.size = some n ∧ b ≤ p ∧ p < b + n := by
  rw [h.lookup_eq]
  exact RangeMap.floorEntry_filter_iff h

end Exact

end Exact

/-! ## Every call keeps the map exact -/

section Effect

variable {τ : Type} {t : τ} {s : Shared τ}

theorem exact_new : Exact (.new : Shared τ) := by
  intro b
  simp [Shared.new, HeapTracker.new]

/-- A step that touches neither map nor blocks keeps the map exact. -/
theorem Exact.of_eq {s' : Shared τ} (h : Exact s) (hlive : s'.tracker.liveObjs = s.tracker.liveObjs)
    (hblocks : s'.blocks = s.blocks) : Exact s' := by
  intro b
  rw [hlive, hblocks]
  exact h b

theorem Exact.allocated (h : Exact s) {size answer : ℕ} (hfree : s.blocks.Free answer size) :
    Exact (s.allocated t size answer hfree) := by
  intro b
  change (s.tracker.liveObjs.insert answer size)[b]? = _
  rw [getElem?_insert_nat, h b]
  change _ = ((s.blocks.put answer _ hfree).get? b).map Block.size
  rw [RangeMap.get?_put]
  split <;> rfl

variable [DecidableEq τ]

theorem Exact.freed (h : Exact s) (ptr : ℕ) : Exact (s.freed t ptr) := by
  intro b
  change (s.tracker.liveObjs.erase ptr)[b]? = ((s.blocks.erase ptr).get? b).map Block.size
  rw [getElem?_erase_nat, RangeMap.get?_erase, h b]
  split <;> rfl

/-- The new entry replaces the old one of a block resized in place, and stands beside a gap where
a moved block was. -/
theorem Exact.reallocated (h : Exact s) {ptr oldSize newSize answer : ℕ} {blk : Block τ}
    (hfree : (s.blocks.erase ptr).Free answer newSize) :
    Exact (s.reallocated t ptr oldSize newSize answer blk hfree) := by
  intro b
  rw [Shared.reallocated]
  by_cases hsame : answer = ptr
  · rw [if_pos hsame]
    simp only [Shared.rerecorded, Shared.resized, HeapTracker.liveObjs_adjust,
      HeapTracker.liveObjs_insertLive, getElem?_insert_nat, RangeMap.get?_put, RangeMap.get?_erase,
      h b, hsame]
    split <;> rfl
  · rw [if_neg hsame]
    simp only [Shared.rerecorded, Shared.displaced, Shared.resized, HeapTracker.liveObjs_adjust,
      HeapTracker.liveObjs_insertLive, HeapTracker.liveObjs_classify, HeapTracker.liveObjs_add,
      HeapTracker.liveObjs_removeUnsafe, HeapTracker.liveObjs_removeLive, getElem?_insert_nat,
      getElem?_erase_nat, RangeMap.get?_put, RangeMap.get?_erase, h b]
    split
    · rfl
    · split <;> rfl

/-- Every call keeps the map exact. -/
theorem Exact.effect (h : Exact s) (call : Call) : Exact (call.effect t s) := by
  cases call with
  | alloc layout answer | allocZeroed layout answer =>
    rw [Call.effect]
    split
    · exact h.allocated _
    · exact h
  | dealloc ptr layout => exact h.freed ptr
  | realloc ptr layout newSize answer =>
    rw [Call.effect]
    split
    · exact h
    · split
      · exact h.reallocated _
      · exact h
  | memAccess ptr =>
    rw [Call.effect]
    split
    · exact h.of_eq rfl rfl
    · exact h
  | unsafeMemAccess ptr isLoad =>
    rw [Call.effect]
    split
    · exact h
    · refine h.of_eq ?_ ?_
      all_goals
        dsimp only
        split <;> simp [Shared.tracked, Shared.counted]

end Effect

/-! ## What the application holds -/

/-- The live blocks of the application, by base address, with their sizes. -/
abbrev Held := RangeMap ℕ id (2 ^ 64)

/-- What the application holds after a call. The system allocator answers with null or a legal range
that overlaps no live block; every other answer counts as null. A block that the application does
not hold, or holds with another size, cannot be freed or resized. -/
def Held.after (held : Held) : Call → Held
  | .alloc layout answer | .allocZeroed layout answer =>
    if h : held.get? answer = none ∧ held.Free answer layout.size then
      held.put answer layout.size h.2
    else held
  | .dealloc ptr layout => if held.get? ptr = some layout.size then held.erase ptr else held
  | .realloc ptr layout newSize answer =>
    if held.get? ptr = some layout.size then
      if h : (held.erase ptr).get? answer = none ∧ (held.erase ptr).Free answer newSize then
        (held.erase ptr).put answer newSize h.2
      else held
    else held
  | .memAccess _ | .unsafeMemAccess _ _ => held

/-- What the application holds after a sequence of calls. -/
def held (calls : List Call) : Held := calls.foldl Held.after .empty

/-- The system allocator has the blocks that the application holds. -/
def Agrees (s : State) (h : Held) : Prop := ∀ b : ℕ, (s.blocks.get? b).map Block.size = h.get? b

namespace Agrees

variable {s s' : State} {h : Held}

theorem new : Agrees .new .empty := by
  intro b
  simp [Shared.new]

theorem of_eq (hagrees : Agrees s h) (hblocks : s'.blocks = s.blocks) : Agrees s' h := by
  intro b
  rw [hblocks]
  exact hagrees b

theorem owns_iff (hagrees : Agrees s h) {ptr size : ℕ} :
    Owns () ptr size s ↔ h.get? ptr = some size := by
  rw [Heap.owns_iff, ← hagrees ptr, Option.map_eq_some_iff]
  exact exists_congr fun blk ↦ and_congr_right fun _ ↦ and_iff_right rfl

/-- A range that one of them can put, the other can put. -/
theorem grants_iff {blocks : Blocks Unit} {h : Held}
    (hagrees : ∀ b, (blocks.get? b).map Block.size = h.get? b) (answer size : ℕ) :
    (blocks.get? answer = none ∧ blocks.Free answer size) ↔
      (h.get? answer = none ∧ h.Free answer size) := by
  have hfree : blocks.Free answer size ↔ h.Free answer size :=
    RangeMap.free_congr fun b ↦ by rw [Option.map_id_apply, hagrees b]
  rw [hfree, ← hagrees answer, Option.map_eq_none_iff]

theorem erase (hagrees : Agrees s h) (ptr : ℕ) (b : ℕ) :
    ((s.blocks.erase ptr).get? b).map Block.size = (h.erase ptr).get? b := by
  rw [RangeMap.get?_erase, RangeMap.get?_erase, ← hagrees b]
  split <;> rfl

theorem put {blocks : Blocks Unit} {h : Held}
    (hagrees : ∀ b, (blocks.get? b).map Block.size = h.get? b) {answer : ℕ} (blk : Block Unit)
    (hfree : blocks.Free answer blk.size) (hfree' : h.Free answer blk.size) (b : ℕ) :
    ((blocks.put answer blk hfree).get? b).map Block.size
      = (RangeMap.put h answer blk.size hfree').get? b := by
  rw [RangeMap.get?_put, RangeMap.get?_put, ← hagrees b]
  split <;> rfl

theorem alloc (hagrees : Agrees s h) (layout : Layout) (answer : ℕ) :
    Agrees ((Call.alloc layout answer).effect () s) (h.after (.alloc layout answer)) := by
  have hgrants := grants_iff hagrees answer layout.size
  simp only [Call.effect, Held.after]
  split
  case isTrue hgrant =>
    rw [dif_pos (hgrants.mp hgrant)]
    exact put hagrees ⟨layout.size, (), s.history.born⟩ hgrant.2 (hgrants.mp hgrant).2
  case isFalse hnull =>
    rw [dif_neg (mt hgrants.mpr hnull)]
    exact hagrees

theorem realloc (hagrees : Agrees s h) {ptr : ℕ} {layout : Layout} {newSize answer : ℕ}
    (hptr : h.get? ptr = some layout.size) :
    Agrees ((Call.realloc ptr layout newSize answer).effect () s)
      (h.after (.realloc ptr layout newSize answer)) := by
  have hgrants := grants_iff (hagrees.erase ptr) answer newSize
  obtain ⟨blk, hblk, -⟩ := Option.map_eq_some_iff.mp ((hagrees ptr).trans hptr)
  simp only [Call.effect, Held.after, hblk, hptr, if_true]
  split
  case isTrue hgrant =>
    rw [dif_pos (hgrants.mp hgrant)]
    intro b
    rw [Shared.reallocated_blocks]
    exact put (hagrees.erase ptr) { blk with size := newSize } hgrant.2
      (hgrants.mp hgrant).2 b
  case isFalse hnull =>
    rw [dif_neg (mt hgrants.mpr hnull)]
    exact hagrees

theorem alloc_exec (hagrees : Agrees s h) (layout : Layout) (answer : ℕ) :
    Agrees ((Call.alloc layout answer).exec s) (h.after (.alloc layout answer)) := by
  rw [Call.exec_eq]
  split
  case isTrue => exact hagrees.alloc layout answer
  case isFalse hsize =>
    -- no range is empty
    have hnull : ¬(h.get? answer = none ∧ h.Free answer layout.size) :=
      fun hgrant ↦ hsize hgrant.2.1.2.1
    simp only [Held.after, dif_neg hnull]
    exact hagrees

/-- A call makes the same blocks for the application and for the system allocator. -/
theorem exec (hagrees : Agrees s h) (call : Call) : Agrees (call.exec s) (h.after call) := by
  cases call with
  | alloc layout answer => exact hagrees.alloc_exec layout answer
  | allocZeroed layout answer =>
    have hsame : (Call.allocZeroed layout answer).exec s = (Call.alloc layout answer).exec s := by
      rw [Call.exec_eq, Call.exec_eq]
      rfl
    rw [hsame]
    exact hagrees.alloc_exec layout answer
  | dealloc ptr layout =>
    have howns : (Call.dealloc ptr layout).Allowed () s ↔ h.get? ptr = some layout.size :=
      hagrees.owns_iff
    simp only [Call.exec_eq, howns, Held.after]
    split
    · exact hagrees.erase ptr
    · exact hagrees
  | realloc ptr layout newSize answer =>
    have howns : (Call.realloc ptr layout newSize answer).Allowed () s ↔
        h.get? ptr = some layout.size ∧ 0 < newSize := and_congr_left' hagrees.owns_iff
    rw [Call.exec_eq]
    by_cases hptr : h.get? ptr = some layout.size
    · split
      case isTrue => exact hagrees.realloc hptr
      case isFalse hsize =>
        have hnull : ¬((h.erase ptr).get? answer = none ∧ (h.erase ptr).Free answer newSize) :=
          fun hgrant ↦ hsize (howns.mpr ⟨hptr, hgrant.2.1.2.1⟩)
        simp only [Held.after, dif_neg hnull, ite_self]
        exact hagrees
    · rw [if_neg fun hall ↦ hptr (howns.mp hall).1]
      simp only [Held.after, if_neg hptr]
      exact hagrees
  | memAccess ptr =>
    refine hagrees.of_eq ?_
    rw [Call.exec_eq, Call.effect]
    split
    · split <;> rfl
    · rfl
  | unsafeMemAccess ptr isLoad =>
    refine hagrees.of_eq ?_
    rw [Call.exec_eq, Call.effect]
    split
    · split
      · rfl
      · dsimp only
        split <;> rfl
    · rfl

end Agrees

/-! ## Runs -/

theorem agrees_runCalls (calls : List Call) : Agrees (runCalls calls) (held calls) := by
  induction calls using List.reverseRecOn with
  | nil => exact .new
  | append_singleton calls call ih =>
    rw [runCalls_append_singleton, held, List.foldl_append, List.foldl_cons, List.foldl_nil]
    exact ih.exec call

theorem exact_runCalls (calls : List Call) : Exact (runCalls calls) :=
  runCalls_induction exact_new (fun _ call h _ ↦ h.effect call) calls

/-- After any sequence of calls the map of live objects has exactly the blocks that the application
holds, with their sizes, the recorded ranges are disjoint, and the lookup finds a block just at the
addresses inside it. -/
theorem live_objects_exact (calls : List Call) :
    (∀ b : ℕ, (runCalls calls).tracker.liveObjs[b]? = (held calls).get? b) ∧
      (∀ b b' n n' : ℕ, (runCalls calls).tracker.liveObjs[b]? = some n →
        (runCalls calls).tracker.liveObjs[b']? = some n' → b ≠ b' → Apart b n b' n') ∧
      ∀ p b n : ℕ, (((findHeapObj () p).run false).exec (runCalls calls)).1.1 = some (b, n) ↔
        (held calls).get? b = some n ∧ b ≤ p ∧ p < b + n := by
  have h := exact_runCalls calls
  have hagrees := agrees_runCalls calls
  refine ⟨fun b ↦ (h b).trans (hagrees b), fun b b' n n' hb hb' hne ↦ h.apart hb hb' hne,
    fun p b n ↦ ?_⟩
  rw [findHeapObj_exec, ← hagrees b]
  exact h.lookup_eq_some_iff

end UnsafePerf.Heap
