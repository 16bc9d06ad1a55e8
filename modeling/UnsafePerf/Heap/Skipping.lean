import UnsafePerf.Heap.Sequential

/-!
# Calls made with the flag set

The tracker sets `SKIP_TRACKING` around its own work, and what a thread does while the flag is set
is meant to leave no trace. Every operation tests the flag for itself. `realloc` tests it for the
maps, the histogram and `total_realloc`, but the adjustment of `total_usage` comes after the guarded
part: a block that grows or shrinks while the flag is set changes the bytes in use.

So a sequence of such calls changes at most `total_usage`, by the bytes its blocks have grown
through reallocation, in the arithmetic of the counter. An allocation made with the flag set is not
counted, so the bytes that such a block grows by are bytes of a block the tracker does not know.
-/

open Concurrency Ranges

namespace UnsafePerf.Heap

/-! ## The bytes in use -/

namespace HeapTracker

/-- The counters are machine integers. -/
def Fits (h : HeapTracker) : Prop := ∀ c, h.counters c < 2 ^ 64

/-- The tracker with other bytes in use. -/
def withUsage (h : HeapTracker) (usage : ℕ) : HeapTracker :=
  { h with counters := Function.update h.counters .totalUsage usage }

variable (h : HeapTracker)

@[simp] theorem withUsage_self : h.withUsage (h.counters .totalUsage) = h := by
  rw [withUsage, Function.update_eq_self]

@[simp] theorem withUsage_withUsage (usage usage' : ℕ) :
    (h.withUsage usage).withUsage usage' = h.withUsage usage' := by
  simp [withUsage]

theorem counters_withUsage (usage : ℕ) (c : HeapCounter) : (h.withUsage usage).counters c
    = if c = .totalUsage then usage else h.counters c := Function.update_apply ..

theorem withUsage_eq_self_iff (usage : ℕ) :
    h.withUsage usage = h ↔ usage = h.counters .totalUsage := by
  constructor
  · intro heq
    rw [← heq, counters_withUsage, if_pos rfl]
  · rintro rfl
    exact h.withUsage_self

/-- The adjustment adds the difference of the sizes, in the arithmetic of the counter. -/
theorem adjust_eq_withUsage {oldSize : ℕ} (hold : oldSize < 2 ^ 64) (newSize : ℕ) :
    h.adjust oldSize newSize
      = h.withUsage (((h.counters .totalUsage : ℤ) + (newSize - oldSize)) % 2 ^ 64).toNat := by
  have heq : h.adjust oldSize newSize
      = h.withUsage ((h.adjust oldSize newSize).counters .totalUsage) := by
    rw [adjust]
    split
    · simp [add, withUsage]
    · simp [sub, withUsage]
  rw [heq, counters_adjust_totalUsage]
  congr 1
  split
  · omega
  · omega

end HeapTracker

/-! ## One call -/

section Calls

variable {τ : Type}

/-- The system resizes the block at `ptr`. -/
def Shared.GrantsRealloc (s : Shared τ) (ptr newSize answer : ℕ) : Prop :=
  (s.blocks.get? ptr).isSome ∧ (s.blocks.erase ptr).get? answer = none ∧
    (s.blocks.erase ptr).Free answer newSize

instance (s : Shared τ) (ptr newSize answer : ℕ) : Decidable (s.GrantsRealloc ptr newSize answer) :=
  inferInstanceAs (Decidable (_ ∧ _))

/-- The sizes are machine integers. -/
def Call.FitsUsize : Call → Prop
  | .alloc layout _ | .allocZeroed layout _ | .dealloc _ layout => layout.size < 2 ^ 64
  | .realloc _ layout newSize _ => layout.size < 2 ^ 64 ∧ newSize < 2 ^ 64
  | .memAccess _ | .unsafeMemAccess _ _ => True

instance : (call : Call) → Decidable call.FitsUsize
  | .alloc _ _ | .allocZeroed _ _ | .dealloc _ _ => inferInstanceAs (Decidable (_ < _))
  | .realloc _ _ _ _ => inferInstanceAs (Decidable (_ ∧ _))
  | .memAccess _ | .unsafeMemAccess _ _ => inferInstanceAs (Decidable True)

/-- The bytes by which the call makes its block grow: those of a reallocation that the system
grants. -/
def Call.growth (s : Shared τ) : Call → ℤ
  | .realloc ptr layout newSize answer =>
    if s.GrantsRealloc ptr newSize answer then (newSize : ℤ) - layout.size else 0
  | .alloc _ _ | .allocZeroed _ _ | .dealloc _ _ | .memAccess _ | .unsafeMemAccess _ _ => 0

variable [DecidableEq τ] (t : τ) (s : Shared τ)

omit [DecidableEq τ] in
theorem systemAlloc_exec_tracker (size answer : ℕ) :
    ((systemAlloc t size answer).exec s).2.tracker = s.tracker := by
  rw [systemAlloc, Program.exec_rmw]
  split
  · rfl
  · rfl

theorem systemRealloc_exec_tracker (ptr newSize answer : ℕ) :
    ((systemRealloc t ptr newSize answer).exec s).2.tracker = s.tracker := by
  rw [systemRealloc, Program.exec_rmw]
  split
  · rfl
  · split
    · rfl
    · rfl

/-- The answer is not null just if the reallocation is granted. -/
theorem systemRealloc_exec_ne_zero_iff (ptr newSize answer : ℕ) :
    ((systemRealloc t ptr newSize answer).exec s).1 ≠ 0 ↔ s.GrantsRealloc ptr newSize answer := by
  rw [systemRealloc, Program.exec_rmw, Shared.GrantsRealloc]
  cases hblk : s.blocks.get? ptr with
  | none => simp
  | some blk =>
    by_cases h : (s.blocks.erase ptr).get? answer = none ∧ (s.blocks.erase ptr).Free answer newSize
    · have hne : answer ≠ 0 := Nat.pos_iff_ne_zero.mp h.2.1.1
      simp [h, hne]
    · simp [h]

omit [DecidableEq τ] in
theorem alloc_exec_skip (layout : Layout) (answer : ℕ) :
    (((Heap.alloc t layout answer).run true).exec s).1.2 = true ∧
      (((Heap.alloc t layout answer).run true).exec s).2.tracker = s.tracker := by
  have htracker := systemAlloc_exec_tracker t s layout.size answer
  simp [Heap.alloc, htracker]

/-- Even with the flag set a reallocation adjusts the bytes in use. -/
theorem realloc_exec_skip (ptr : ℕ) (layout : Layout) (newSize answer : ℕ) :
    (((Heap.realloc t ptr layout newSize answer).run true).exec s).1.2 = true ∧
      (((Heap.realloc t ptr layout newSize answer).run true).exec s).2.tracker
        = if s.GrantsRealloc ptr newSize answer then s.tracker.adjust layout.size newSize
          else s.tracker := by
  have htracker := systemRealloc_exec_tracker t s ptr newSize answer
  have hgrants := systemRealloc_exec_ne_zero_iff t s ptr newSize answer
  by_cases hnull : ((systemRealloc t ptr newSize answer).exec s).1 = 0
  · have hrefused : ¬s.GrantsRealloc ptr newSize answer := fun h ↦ hgrants.mpr h hnull
    simp [Heap.realloc, hnull, htracker, hrefused]
  · have hgranted : s.GrantsRealloc ptr newSize answer := hgrants.mp hnull
    by_cases hgt : newSize > layout.size
    · simp [Heap.realloc, hnull, hgt, htracker, hgranted, Shared.tracked, HeapTracker.adjust]
    · simp [Heap.realloc, hnull, hgt, htracker, hgranted, Shared.tracked, HeapTracker.adjust]

/-- What a call made with the flag set makes of the tracker. -/
def Call.skipped (s : Shared τ) : Call → HeapTracker
  | .realloc ptr layout newSize answer =>
    if s.GrantsRealloc ptr newSize answer then s.tracker.adjust layout.size newSize else s.tracker
  | .alloc _ _ | .allocZeroed _ _ | .dealloc _ _ | .memAccess _ | .unsafeMemAccess _ _ => s.tracker

/-- A call made with the flag set leaves it set. -/
theorem code_exec_skip (call : Call) :
    (((call.code t).run true).exec s).1.2 = true ∧
      (((call.code t).run true).exec s).2.tracker = call.skipped s := by
  cases call with
  | alloc layout answer | allocZeroed layout answer =>
    obtain ⟨hskip, htracker⟩ := alloc_exec_skip t s layout answer
    simp [Call.code, Call.skipped, allocZeroed_eq_alloc, hskip, htracker]
  | dealloc ptr layout => simp [Call.code, Call.skipped, Heap.dealloc, systemDealloc]
  | realloc ptr layout newSize answer =>
    obtain ⟨hskip, htracker⟩ := realloc_exec_skip t s ptr layout newSize answer
    simp [Call.code, Call.skipped, hskip, htracker]
  | memAccess ptr => simp [Call.code, Call.skipped, accessHeapObj, findHeapObj]
  | unsafeMemAccess ptr isLoad => simp [Call.code, Call.skipped, accessUnsafeHeapObj, findHeapObj]

omit [DecidableEq τ] in
/-- The tracker is as it was up to the bytes in use, which change by what the block has grown. -/
theorem Call.skipped_eq_withUsage (call : Call) (hsize : call.FitsUsize) (hfits : s.tracker.Fits) :
    call.skipped s = s.tracker.withUsage
      (((s.tracker.counters .totalUsage : ℤ) + call.growth s) % 2 ^ 64).toNat := by
  have hsame : s.tracker = s.tracker.withUsage
      (((s.tracker.counters .totalUsage : ℤ) + 0) % 2 ^ 64).toNat := by
    have husage := hfits .totalUsage
    rw [eq_comm, HeapTracker.withUsage_eq_self_iff]
    omega
  cases call with
  | realloc ptr layout newSize answer =>
    rw [skipped, growth]
    split
    · exact HeapTracker.adjust_eq_withUsage _ hsize.1 newSize
    · exact hsame
  | alloc | allocZeroed | dealloc | memAccess | unsafeMemAccess => exact hsame

end Calls

/-! ## Sequences of calls -/

section Sequences

variable {τ : Type} [DecidableEq τ] (t : τ)

/-- The bytes by which a sequence of calls makes its blocks grow, each reallocation granted or
refused in the state it is made in. -/
def growth (s : Shared τ) : List Call → ℤ
  | [] => 0
  | call :: calls => call.growth s + growth (((call.code t).run true).exec s).2 calls

/-- A sequence of calls made with the flag set leaves it set, and the tracker as it is up to the
bytes in use. -/
theorem forM_code_exec_skip (calls : List Call) (hsizes : ∀ call ∈ calls, call.FitsUsize)
    (s : Shared τ) (hfits : s.tracker.Fits) :
    (((calls.forM (Call.code t)).run true).exec s).1.2 = true ∧
      (((calls.forM (Call.code t)).run true).exec s).2.tracker = s.tracker.withUsage
        (((s.tracker.counters .totalUsage : ℤ) + growth t s calls) % 2 ^ 64).toNat := by
  induction calls generalizing s with
  | nil =>
    have husage := hfits .totalUsage
    refine ⟨rfl, ?_⟩
    have hsame : (((s.tracker.counters .totalUsage : ℤ) + growth t s []) % 2 ^ 64).toNat
        = s.tracker.counters .totalUsage := by
      rw [growth]
      omega
    rw [hsame, HeapTracker.withUsage_self]
    rfl
  | cons call calls ih =>
    obtain ⟨hskip, htracker⟩ := code_exec_skip t s call
    rw [call.skipped_eq_withUsage s (hsizes call List.mem_cons_self) hfits] at htracker
    set s₁ := (((call.code t).run true).exec s).2 with hs₁
    have hfits₁ : s₁.tracker.Fits := by
      intro c
      rw [htracker, HeapTracker.counters_withUsage]
      split
      · omega
      · exact hfits c
    obtain ⟨hskip', htracker'⟩ := ih (fun call h ↦ hsizes call (List.mem_cons_of_mem _ h)) s₁ hfits₁
    have hcons : (((call :: calls).forM (Call.code t)).run true).exec s
        = ((calls.forM (Call.code t)).run true).exec s₁ := by
      change (((call.code t >>= fun _ ↦ calls.forM (Call.code t))).run true).exec s = _
      rw [ThreadM.run_bind, Program.exec_bind, hskip]
    rw [hcons]
    refine ⟨hskip', ?_⟩
    rw [htracker', htracker, HeapTracker.withUsage_withUsage, HeapTracker.counters_withUsage,
      if_pos rfl, growth, ← hs₁]
    congr 1
    omega

/-- A sequence of calls made with the flag set changes nothing but the bytes in use, and leaves the
tracker as it was just if the bytes its blocks have grown by are a multiple of `2 ^ 64`. -/
theorem skipped_calls_invisible_iff (s : Shared τ) (hfits : s.tracker.Fits) (calls : List Call)
    (hsizes : ∀ call ∈ calls, call.FitsUsize) :
    let result := ((calls.forM (Call.code t)).run true).exec s
    result.1.2 = true ∧
      (∃ usage, result.2.tracker = s.tracker.withUsage usage) ∧
      (result.2.tracker = s.tracker ↔ 2 ^ 64 ∣ growth t s calls) := by
  obtain ⟨hskip, htracker⟩ := forM_code_exec_skip t calls hsizes s hfits
  refine ⟨hskip, ⟨_, htracker⟩, ?_⟩
  have husage := hfits .totalUsage
  rw [htracker, HeapTracker.withUsage_eq_self_iff]
  omega

end Sequences

/-- A buffer that grows, shrinks again and is freed. -/
def regrownBuffer : List Call :=
  [.alloc ⟨8⟩ 4096, .realloc 4096 ⟨8⟩ 16 8192, .realloc 8192 ⟨16⟩ 8 8192, .dealloc 8192 ⟨8⟩]

theorem skipped_calls_invisible_iff_regrownBuffer :
    (((regrownBuffer.forM (Call.code ())).run true).exec (Shared.new : State)).2.tracker
      = (Shared.new : State).tracker := by
  have hfits : (Shared.new : State).tracker.Fits := fun _ ↦ (by decide : 0 < 2 ^ 64)
  obtain ⟨-, -, hiff⟩ :=
    skipped_calls_invisible_iff () (Shared.new : State) hfits regrownBuffer (by decide)
  exact hiff.mpr (by decide +kernel)

/-- A string that grows while it is formatted, and is freed. -/
def grownString : List Call :=
  [.alloc ⟨8⟩ 4096, .realloc 4096 ⟨8⟩ 16 8192, .dealloc 8192 ⟨16⟩]

theorem skipped_calls_visible :
    ¬∀ (s : State) (calls : List Call), s.tracker.Fits → (∀ call ∈ calls, call.FitsUsize) →
      (((calls.forM (Call.code ())).run true).exec s).2.tracker = s.tracker := by
  intro h
  have hfits : (Shared.new : State).tracker.Fits := fun _ ↦ (by decide : 0 < 2 ^ 64)
  have hsame := h Shared.new grownString hfits (by decide)
  have husage : (((grownString.forM (Call.code ())).run true).exec
      (Shared.new : State)).2.tracker.counters .totalUsage = 8 := by decide +kernel
  rw [hsame] at husage
  exact absurd husage (by decide)

end UnsafePerf.Heap
