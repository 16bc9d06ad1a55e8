import UnsafePerf.Heap.Tracker

/-!
# Calls of one thread

With one thread a call runs from its beginning to its end, so it is a function of the state. This
file computes that function, `Call.effect`, from the code; statements about sequences of calls
follow from it and do not unfold the code again.
-/

open Concurrency Ranges Std

namespace UnsafePerf.Heap

/-- The adjustment of the bytes in use after a reallocation. -/
def HeapTracker.adjust (h : HeapTracker) (oldSize newSize : ℕ) : HeapTracker :=
  if newSize > oldSize then h.add .totalUsage (newSize - oldSize)
  else h.sub .totalUsage (oldSize - newSize)

@[simp] theorem HeapTracker.liveObjs_adjust (h : HeapTracker) (oldSize newSize : ℕ) :
    (h.adjust oldSize newSize).liveObjs = h.liveObjs := by
  rw [HeapTracker.adjust]
  split <;> rfl

@[simp] theorem HeapTracker.counters_adjust_of_ne (h : HeapTracker) (oldSize newSize : ℕ)
    {c : HeapCounter} (hne : c ≠ .totalUsage) :
    (h.adjust oldSize newSize).counters c = h.counters c := by
  rw [HeapTracker.adjust]
  split
  · rw [HeapTracker.counters_add, if_neg hne]
  · rw [HeapTracker.counters_sub, if_neg hne]

theorem HeapTracker.counters_adjust_totalUsage (h : HeapTracker) (oldSize newSize : ℕ) :
    (h.adjust oldSize newSize).counters .totalUsage
      = if newSize > oldSize then (h.counters .totalUsage + (newSize - oldSize)) % 2 ^ 64
        else (h.counters .totalUsage + (2 ^ 64 - (oldSize - newSize))) % 2 ^ 64 := by
  rw [HeapTracker.adjust]
  split
  · rw [HeapTracker.counters_add, if_pos rfl]
  · rw [HeapTracker.counters_sub, if_pos rfl]

/-- The adjustment replaces the old size by the new one, as long as the bytes in use do not wrap. -/
theorem HeapTracker.counters_adjust (h : HeapTracker) {oldSize newSize : ℕ}
    (hold : oldSize ≤ h.counters .totalUsage)
    (hnew : h.counters .totalUsage + newSize < 2 ^ 64 + oldSize)
    (hlt : h.counters .totalUsage < 2 ^ 64) :
    (h.adjust oldSize newSize).counters .totalUsage
      = h.counters .totalUsage - oldSize + newSize := by
  rw [HeapTracker.counters_adjust_totalUsage]
  split
  · omega
  · omega

section Effects

variable {τ : Type} [DecidableEq τ]

namespace Shared

/-- Record that the map has the block at this base. -/
def noteRecorded (s : Shared τ) (ptr : ℕ) : History τ :=
  { s.history with unrecorded := s.history.unrecorded.erase ptr }

/-- After a successful allocation by the system. -/
def obtained (s : Shared τ) (t : τ) (size answer : ℕ) (h : s.blocks.Free answer size) :
    Shared τ where
  tracker := s.tracker
  blocks := s.blocks.put answer ⟨size, t, s.history.born⟩ h
  history := { s.beginChain size with unrecorded := insert answer s.history.unrecorded }

/-- After a successful allocation. -/
def allocated (s : Shared τ) (t : τ) (size answer : ℕ) (h : s.blocks.Free answer size) :
    Shared τ where
  tracker := (((s.tracker.add .totalUsage size).add .totalAlloc 1).classify size false).insertLive
    answer size
  blocks := (s.obtained t size answer h).blocks
  history := (s.obtained t size answer h).noteRecorded answer

/-- After a deallocation. -/
def freed (s : Shared τ) (t : τ) (ptr : ℕ) : Shared τ where
  tracker := ((s.tracker.add .totalDealloc 1).removeLive ptr).removeUnsafe ptr
  blocks := s.blocks.erase ptr
  history := { s.noteRemoved t ptr with
    unrecorded := (s.noteRemoved t ptr).unrecorded.erase ptr }

/-- After a successful reallocation by the system. -/
def resized (s : Shared τ) (t : τ) (ptr newSize answer : ℕ) (blk : Block τ)
    (h : (s.blocks.erase ptr).Free answer newSize) : Shared τ where
  tracker := s.tracker
  blocks := (s.blocks.erase ptr).put answer { blk with size := newSize } h
  history := s.noteResize t ptr blk newSize answer

/-- After the removal of the old entry of a block that was moved. -/
def displaced (s : Shared τ) (t : τ) (ptr newSize : ℕ) : Shared τ where
  tracker := (((s.tracker.removeLive ptr).removeUnsafe ptr).add .totalRealloc 1).classify newSize
    false
  blocks := s.blocks
  history := s.noteRemoved t ptr

/-- After the last steps of a reallocation. -/
def rerecorded (s : Shared τ) (oldSize newSize answer : ℕ) : Shared τ where
  tracker := (s.tracker.insertLive answer newSize).adjust oldSize newSize
  blocks := s.blocks
  history := s.noteRecorded answer

/-- After a successful reallocation. -/
def reallocated (s : Shared τ) (t : τ) (ptr oldSize newSize answer : ℕ) (blk : Block τ)
    (h : (s.blocks.erase ptr).Free answer newSize) : Shared τ :=
  let s₁ := s.resized t ptr newSize answer blk h
  let s₂ := if answer = ptr then s₁ else s₁.displaced t ptr newSize
  s₂.rerecorded oldSize newSize answer

/-- After the first access of unsafe code to an object in its lifetime. -/
def counted (s : Shared τ) (base size : ℕ) : Shared τ where
  tracker := (((s.tracker.insertUnsafe base).add .unsafeMem size).add .totalUnsafeObjs 1).classify
    size true
  blocks := s.blocks
  history := s.noteCounted base size

/-- A step of the tracker alone. -/
def tracked (s : Shared τ) (f : HeapTracker → HeapTracker) : Shared τ :=
  { s with tracker := f s.tracker }

section Fields

variable (s : Shared τ) (t : τ) (ptr oldSize newSize answer : ℕ) (blk : Block τ)
  (h : (s.blocks.erase ptr).Free answer newSize)

theorem reallocated_blocks : (s.reallocated t ptr oldSize newSize answer blk h).blocks
    = (s.blocks.erase ptr).put answer { blk with size := newSize } h := by
  rw [reallocated]
  split <;> rfl

theorem reallocated_born :
    (s.reallocated t ptr oldSize newSize answer blk h).history.born = s.history.born := by
  rw [reallocated]
  split <;> simp [rerecorded, noteRecorded, displaced, resized, noteResize]

theorem reallocated_latest : (s.reallocated t ptr oldSize newSize answer blk h).history.latest
    = Function.update s.history.latest blk.chain newSize := by
  rw [reallocated]
  split <;> simp [rerecorded, noteRecorded, displaced, resized, noteResize]

theorem reallocated_counted :
    (s.reallocated t ptr oldSize newSize answer blk h).history.counted = s.history.counted := by
  rw [reallocated]
  split <;> simp [rerecorded, noteRecorded, displaced, resized, noteResize]

theorem reallocated_unsafeMem :
    (s.reallocated t ptr oldSize newSize answer blk h).tracker.counters .unsafeMem
      = s.tracker.counters .unsafeMem := by
  rw [reallocated]
  split <;> simp [rerecorded, displaced, resized]

theorem totalUsage_reallocated :
    (s.reallocated t ptr oldSize newSize answer blk h).tracker.counters .totalUsage
      = (s.tracker.adjust oldSize newSize).counters .totalUsage := by
  have hsame : ((if answer = ptr then s.resized t ptr newSize answer blk h
      else (s.resized t ptr newSize answer blk h).displaced t ptr newSize).tracker.insertLive answer
        newSize).counters .totalUsage = s.tracker.counters .totalUsage := by
    split
    · rfl
    · simp [displaced, resized]
  rw [reallocated, rerecorded, HeapTracker.counters_adjust_totalUsage,
    HeapTracker.counters_adjust_totalUsage, hsame]

theorem reallocated_totalUsage (hold : oldSize ≤ s.tracker.counters .totalUsage)
    (hnew : s.tracker.counters .totalUsage + newSize < 2 ^ 64 + oldSize)
    (hlt : s.tracker.counters .totalUsage < 2 ^ 64) :
    (s.reallocated t ptr oldSize newSize answer blk h).tracker.counters .totalUsage
      = s.tracker.counters .totalUsage - oldSize + newSize := by
  rw [totalUsage_reallocated, HeapTracker.counters_adjust _ hold hnew hlt]

end Fields

end Shared

/-- The effect of a call made with the flag clear. -/
def Call.effect (t : τ) (s : Shared τ) : Call → Shared τ
  | .alloc layout answer | .allocZeroed layout answer =>
    if h : s.blocks.get? answer = none ∧ s.blocks.Free answer layout.size then
      s.allocated t layout.size answer h.2
    else s
  | .dealloc ptr _ => s.freed t ptr
  | .realloc ptr layout newSize answer =>
    match s.blocks.get? ptr with
    | none => s
    | some blk =>
      if h : (s.blocks.erase ptr).get? answer = none ∧ (s.blocks.erase ptr).Free answer newSize then
        s.reallocated t ptr layout.size newSize answer blk h.2
      else s
  | .memAccess ptr =>
    if (s.tracker.lookup ptr).isSome then s.tracked (·.add .totalMemInsts 1) else s
  | .unsafeMemAccess ptr isLoad =>
    match s.tracker.lookup ptr with
    | none => s
    | some (base, size) =>
      let s₁ := if s.tracker.liveUnsafeObjs.contains base then s.tracked (·.insertUnsafe base)
        else s.counted base size
      s₁.tracked (·.add (if isLoad then .unsafeLoad else .unsafeStore) 1)

end Effects

/-! ## The code has these effects -/

section Steps

variable {τ : Type} (t : τ) (s : Shared τ)

@[simp] theorem fetchAdd_exec (c : HeapCounter) (n : ℕ) :
    (fetchAdd t c n).exec s = ((), s.tracked (·.add c n)) := rfl

@[simp] theorem fetchSub_exec (c : HeapCounter) (n : ℕ) :
    (fetchSub t c n).exec s = ((), s.tracked (·.sub c n)) := rfl

@[simp] theorem classifyObjBySize_exec (size : ℕ) (isUnsafe : Bool) :
    (classifyObjBySize t size isUnsafe).exec s = ((), s.tracked (·.classify size isUnsafe)) := rfl

@[simp] theorem findHeapObj_exec (ptr : ℕ) :
    ((findHeapObj t ptr).run false).exec s = ((s.tracker.lookup ptr, false), s) := by
  simp [findHeapObj, lookupObj]

@[simp] theorem insertObj_exec (ptr size : ℕ) :
    ((insertObj t ptr size).run false).exec s
      = (((), false), { s with
          tracker := s.tracker.insertLive ptr size
          history := s.noteRecorded ptr }) := by
  simp [insertObj, liveInsert, Shared.noteRecorded]

theorem systemAlloc_exec {size answer : ℕ}
    (h : s.blocks.get? answer = none ∧ s.blocks.Free answer size) :
    (systemAlloc t size answer).exec s = (answer, s.obtained t size answer h.2) := by
  simp [systemAlloc, h, Shared.obtained]

theorem systemAlloc_exec_null {size answer : ℕ}
    (h : ¬(s.blocks.get? answer = none ∧ s.blocks.Free answer size)) :
    (systemAlloc t size answer).exec s = (0, s) := by
  simp [systemAlloc, h]

variable [DecidableEq τ]

theorem systemRealloc_exec {ptr newSize answer : ℕ} {blk : Block τ}
    (hblk : s.blocks.get? ptr = some blk)
    (h : (s.blocks.erase ptr).get? answer = none ∧ (s.blocks.erase ptr).Free answer newSize) :
    (systemRealloc t ptr newSize answer).exec s
      = (answer, s.resized t ptr newSize answer blk h.2) := by
  simp [systemRealloc, hblk, h, Shared.resized]

theorem systemRealloc_exec_null {ptr newSize answer : ℕ} {blk : Block τ}
    (hblk : s.blocks.get? ptr = some blk)
    (h : ¬((s.blocks.erase ptr).get? answer = none ∧ (s.blocks.erase ptr).Free answer newSize)) :
    (systemRealloc t ptr newSize answer).exec s = (0, s) := by
  simp [systemRealloc, hblk, h]

@[simp] theorem removeObj_exec (ptr : ℕ) :
    ((removeObj t ptr).run false).exec s
      = (((), false), { s with
          tracker := (s.tracker.removeLive ptr).removeUnsafe ptr
          history := s.noteRemoved t ptr }) := by
  simp [removeObj, liveRemove, trackerStep]

end Steps

section Exec

theorem allocZeroed_eq_alloc {τ : Type} [DecidableEq τ] (t : τ) (layout : Layout) (answer : ℕ) :
    Heap.allocZeroed t layout answer = Heap.alloc t layout answer := rfl

variable {τ : Type} [DecidableEq τ] (t : τ) (s : Shared τ)

theorem alloc_exec (layout : Layout) (answer : ℕ) :
    (((Heap.alloc t layout answer).run false).exec s).1.2 = false ∧
      (((Heap.alloc t layout answer).run false).exec s).2
        = (Call.alloc layout answer).effect t s := by
  by_cases h : s.blocks.get? answer = none ∧ s.blocks.Free answer layout.size
  · have hne : answer ≠ 0 := Nat.pos_iff_ne_zero.mp h.2.1.1
    simp [Heap.alloc, Call.effect, systemAlloc_exec t s h, h, hne, Shared.allocated,
      Shared.obtained, Shared.noteRecorded, Shared.tracked]
  · simp [Heap.alloc, Call.effect, systemAlloc_exec_null t s h, h]

theorem dealloc_exec (ptr : ℕ) (layout : Layout) :
    ((Heap.dealloc t ptr layout).run false).exec s
      = (((), false), (Call.dealloc ptr layout).effect t s) := by
  simp [Heap.dealloc, Call.effect, systemDealloc, Shared.freed, Shared.noteRemoved, Shared.tracked]

theorem realloc_exec (ptr : ℕ) (layout : Layout) (newSize answer : ℕ) :
    (((Heap.realloc t ptr layout newSize answer).run false).exec s).1.2 = false ∧
      (((Heap.realloc t ptr layout newSize answer).run false).exec s).2
        = (Call.realloc ptr layout newSize answer).effect t s := by
  cases hblk : s.blocks.get? ptr with
  | none => simp [Heap.realloc, Call.effect, systemRealloc, hblk]
  | some blk =>
    by_cases h : (s.blocks.erase ptr).get? answer = none ∧
        (s.blocks.erase ptr).Free answer newSize
    · have hne : answer ≠ 0 := Nat.pos_iff_ne_zero.mp h.2.1.1
      have hsystem := systemRealloc_exec t s hblk h
      by_cases hsame : answer = ptr
      · subst hsame
        by_cases hgt : newSize > layout.size <;>
          simp [Heap.realloc, Call.effect, hsystem, hblk, h, hne, hgt, Shared.reallocated,
            Shared.rerecorded, Shared.noteRecorded, Shared.tracked, HeapTracker.adjust]
      · by_cases hgt : newSize > layout.size <;>
          simp [Heap.realloc, Call.effect, hsystem, hblk, h, hne, hsame, hgt, Shared.reallocated,
            Shared.displaced, Shared.rerecorded, Shared.noteRecorded, Shared.tracked, HeapTracker.adjust]
    · simp [Heap.realloc, Call.effect, systemRealloc_exec_null t s hblk h, hblk, h]

theorem accessHeapObj_exec (ptr : ℕ) :
    ((accessHeapObj t ptr).run false).exec s
      = (((), false), (Call.memAccess ptr).effect t s) := by
  by_cases h : (s.tracker.lookup ptr).isSome <;> simp [accessHeapObj, Call.effect, h]

theorem accessUnsafeHeapObj_exec (ptr : ℕ) (isLoad : Bool) :
    ((accessUnsafeHeapObj t ptr isLoad).run false).exec s
      = (((), false), (Call.unsafeMemAccess ptr isLoad).effect t s) := by
  cases hobj : s.tracker.lookup ptr with
  | none => simp [accessUnsafeHeapObj, Call.effect, hobj]
  | some obj =>
    obtain ⟨base, size⟩ := obj
    cases hmem : s.tracker.liveUnsafeObjs.contains base <;> cases isLoad <;>
      simp [accessUnsafeHeapObj, Call.effect, hobj, hmem, unsafeInsert, countUnsafeMem,
        Shared.tracked, Shared.counted, Shared.noteCounted]

/-- A call made with the flag clear leaves it clear and has its effect. -/
theorem code_exec (call : Call) :
    ((call.code t).run false).exec s = (((), false), call.effect t s) := by
  cases call with
  | alloc layout answer =>
    obtain ⟨hskip, heffect⟩ := alloc_exec t s layout answer
    simp [Call.code, hskip, heffect]
  | allocZeroed layout answer =>
    obtain ⟨hskip, heffect⟩ := alloc_exec t s layout answer
    simp [Call.code, allocZeroed_eq_alloc, hskip, heffect, Call.effect]
  | dealloc ptr layout => exact dealloc_exec t s ptr layout
  | realloc ptr layout newSize answer =>
    obtain ⟨hskip, heffect⟩ := realloc_exec t s ptr layout newSize answer
    simp [Call.code, hskip, heffect]
  | memAccess ptr => exact accessHeapObj_exec t s ptr
  | unsafeMemAccess ptr isLoad => exact accessUnsafeHeapObj_exec t s ptr isLoad

end Exec

/-! ## Runs of one thread -/

/-- The state of a program with one thread. -/
abbrev State := Shared Unit

/-- The code of one call, run alone. A call that breaks the obligations of its caller is not made. -/
def Call.exec (s : State) (call : Call) : State :=
  if call.Allowed () s then (((call.code ()).run false).exec s).2 else s

theorem Call.exec_eq (s : State) (call : Call) :
    call.exec s = if call.Allowed () s then call.effect () s else s := by
  rw [Call.exec, code_exec]

/-- A sequence of calls from program start. -/
def runCalls (calls : List Call) : State := calls.foldl Call.exec .new

theorem runCalls_append_singleton (calls : List Call) (call : Call) :
    runCalls (calls ++ [call]) = call.exec (runCalls calls) := by
  rw [runCalls, List.foldl_append, List.foldl_cons, List.foldl_nil, runCalls]

/-- What holds at program start and is kept by every call holds after every sequence of calls. -/
theorem runCalls_induction {P : State → Prop} (hnew : P .new)
    (hcall : ∀ s (call : Call), P s → call.Allowed () s → P (call.effect () s))
    (calls : List Call) : P (runCalls calls) := by
  induction calls using List.reverseRecOn with
  | nil => exact hnew
  | append_singleton calls call ih =>
    rw [runCalls_append_singleton, Call.exec_eq]
    split
    · next h => exact hcall _ call ih h
    · exact ih

end UnsafePerf.Heap
