import UnsafePerf.Concurrency.Program
import UnsafePerf.Ranges.RangeMap
import Mathlib.Data.Finset.Insert
import Mathlib.Data.Fin.Basic

/-!
# The heap tracker

The tracker wraps the system allocator. It counts allocations and bytes, keeps the live objects in
a map from base address to size, and counts the bytes of every object that unsafe code touches. The
thread-local flag `SKIP_TRACKING` is set around every access to the maps, because these allocate.

## Representation

Addresses, sizes and counters are natural numbers below `2 ^ 64`, and arithmetic on them wraps, as
in a release build. Every access to the shared state is one atomic step; a critical section of a
mutex holds a single map operation and is one step too. The maps' own allocations are made with the
flag set and leave no trace in the tracker, so they are not modelled.

## The system allocator

`System` is not part of the program. A call carries the address the allocator proposes, and the
allocator returns it if it is one a correct allocator may return in the present state, and null
otherwise: the block must not wrap and not overlap a live block. A block to be resized may be
resized in place or moved, onto its own old range too. All its answers arise in this way.

## History

`History` records what the statements speak about; no step of the tracker reads it. A *chain* is
everything one allocation becomes through reallocation.
-/

open Concurrency Ranges Std

namespace UnsafePerf.Heap

/-- The number of size classes. -/
def objSizeNum : ℕ := 14

/-- The counters of the tracker. -/
inductive HeapCounter where
  | totalUsage
  | totalAlloc
  | totalRealloc
  | totalDealloc
  | totalUnsafeObjs
  | unsafeMem
  | totalMemInsts
  | unsafeLoad
  | unsafeStore
  deriving DecidableEq

/-- The tracker as the program declares it. -/
structure HeapTracker where
  counters : HeapCounter → ℕ
  liveObjs : ExtTreeMap ℕ ℕ
  liveUnsafeObjs : ExtTreeSet ℕ
  sizeHistogram : Fin objSizeNum → ℕ
  unsafeSizeHistogram : Fin objSizeNum → ℕ

namespace HeapTracker

/-- `HeapTracker::new`. -/
def new : HeapTracker where
  counters _ := 0
  liveObjs := ∅
  liveUnsafeObjs := ∅
  sizeHistogram _ := 0
  unsafeSizeHistogram _ := 0

/-- `counter.fetch_add(n)`. -/
def add (h : HeapTracker) (c : HeapCounter) (n : ℕ) : HeapTracker :=
  { h with counters := Function.update h.counters c ((h.counters c + n) % 2 ^ 64) }

/-- `counter.fetch_sub(n)`, for an amount below `2 ^ 64`. -/
def sub (h : HeapTracker) (c : HeapCounter) (n : ℕ) : HeapTracker :=
  { h with counters := Function.update h.counters c ((h.counters c + (2 ^ 64 - n)) % 2 ^ 64) }

/-- The size class of an object: the first whose bound the size does not exceed. -/
def sizeClass (size : ℕ) : Fin objSizeNum :=
  match (List.finRange 13).find? fun i ↦ size ≤ 2 ^ i.val * 2 ^ 10 with
  | some i => i.castSucc
  | none => Fin.last 13

/-- `classify_obj_by_size`. -/
def classify (h : HeapTracker) (size : ℕ) (isUnsafe : Bool) : HeapTracker :=
  let i := sizeClass size
  let bump (f : Fin objSizeNum → ℕ) := Function.update f i ((f i + 1) % 2 ^ 64)
  if isUnsafe then { h with unsafeSizeHistogram := bump h.unsafeSizeHistogram }
  else { h with sizeHistogram := bump h.sizeHistogram }

/-- `live_objs.insert(ptr, size)`. -/
def insertLive (h : HeapTracker) (ptr size : ℕ) : HeapTracker :=
  { h with liveObjs := h.liveObjs.insert ptr size }

/-- `live_objs.remove(&ptr)`. -/
def removeLive (h : HeapTracker) (ptr : ℕ) : HeapTracker :=
  { h with liveObjs := h.liveObjs.erase ptr }

/-- `live_unsafe_objs.insert(base)`. -/
def insertUnsafe (h : HeapTracker) (base : ℕ) : HeapTracker :=
  { h with liveUnsafeObjs := h.liveUnsafeObjs.insert base }

/-- `live_unsafe_objs.remove(&ptr)`. -/
def removeUnsafe (h : HeapTracker) (ptr : ℕ) : HeapTracker :=
  { h with liveUnsafeObjs := h.liveUnsafeObjs.erase ptr }

/-- The lookup of `find_heap_obj`: the last object at or below the address, if it reaches the
address. -/
def lookup (h : HeapTracker) (addr : ℕ) : Option (ℕ × ℕ) :=
  (floorEntry h.liveObjs addr).filter fun e ↦ addr < (e.1 + e.2) % 2 ^ 64

section Fields

variable (h : HeapTracker) (c c' : HeapCounter) (ptr size n : ℕ) (isUnsafe : Bool)

@[simp] theorem liveObjs_add : (h.add c n).liveObjs = h.liveObjs := rfl

@[simp] theorem liveObjs_sub : (h.sub c n).liveObjs = h.liveObjs := rfl

@[simp] theorem liveObjs_classify : (h.classify size isUnsafe).liveObjs = h.liveObjs := by
  cases isUnsafe <;> rfl

@[simp] theorem liveObjs_insertLive :
    (h.insertLive ptr size).liveObjs = h.liveObjs.insert ptr size := rfl

@[simp] theorem liveObjs_removeLive : (h.removeLive ptr).liveObjs = h.liveObjs.erase ptr := rfl

@[simp] theorem liveObjs_insertUnsafe : (h.insertUnsafe ptr).liveObjs = h.liveObjs := rfl

@[simp] theorem liveObjs_removeUnsafe : (h.removeUnsafe ptr).liveObjs = h.liveObjs := rfl

@[simp] theorem counters_add : (h.add c n).counters c'
    = if c' = c then (h.counters c + n) % 2 ^ 64 else h.counters c' := Function.update_apply ..

@[simp] theorem counters_sub : (h.sub c n).counters c'
    = if c' = c then (h.counters c + (2 ^ 64 - n)) % 2 ^ 64 else h.counters c' :=
  Function.update_apply ..

@[simp] theorem counters_classify : (h.classify size isUnsafe).counters = h.counters := by
  cases isUnsafe <;> rfl

@[simp] theorem counters_insertLive : (h.insertLive ptr size).counters = h.counters := rfl

@[simp] theorem counters_removeLive : (h.removeLive ptr).counters = h.counters := rfl

@[simp] theorem counters_insertUnsafe : (h.insertUnsafe ptr).counters = h.counters := rfl

@[simp] theorem counters_removeUnsafe : (h.removeUnsafe ptr).counters = h.counters := rfl

end Fields

end HeapTracker

/-- A live block. -/
structure Block (τ : Type) where
  size : ℕ
  /-- The thread that may free or resize the block. -/
  owner : τ
  /-- The number of the chain the block belongs to. -/
  chain : ℕ

/-- The live blocks of the application, by base address. -/
abbrev Blocks (τ : Type) := RangeMap (Block τ) Block.size (2 ^ 64)

/-- What has happened so far. -/
structure History (τ : Type) where
  /-- The number of chains begun. -/
  born : ℕ
  /-- The present size of a chain, or its size when it was freed. -/
  latest : ℕ → ℕ
  /-- The bytes of a chain that have been added to `unsafe_mem`. -/
  counted : ℕ → ℕ
  /-- The bases of live blocks whose present size the map of live objects does not have yet, or no
  longer has. -/
  unrecorded : Finset ℕ
  /-- The address a thread has moved a block away from and not yet removed from the map. -/
  stale : τ → Option ℕ
  /-- The removals that have deleted the record of another thread's block. -/
  clobbered : List (τ × ℕ)

/-- The shared state: the tracker, the blocks of the system allocator, and the history. -/
structure Shared (τ : Type) where
  tracker : HeapTracker
  blocks : Blocks τ
  history : History τ

namespace Shared

variable {τ : Type} [DecidableEq τ]

/-- The state at program start. -/
def new : Shared τ where
  tracker := .new
  blocks := .empty
  history := ⟨0, fun _ ↦ 0, fun _ ↦ 0, ∅, fun _ ↦ none, []⟩

/-- A new chain begins. -/
def beginChain (s : Shared τ) (size : ℕ) : History τ :=
  { s.history with
    born := s.history.born + 1
    latest := Function.update s.history.latest s.history.born size }

/-- Record that the size of a block changed, at `ptr` or by moving to `answer`. -/
def noteResize (s : Shared τ) (t : τ) (ptr : ℕ) (blk : Block τ) (newSize answer : ℕ) : History τ :=
  { s.history with
    latest := Function.update s.history.latest blk.chain newSize
    unrecorded := insert answer (s.history.unrecorded.erase ptr)
    stale := if answer = ptr then s.history.stale
      else Function.update s.history.stale t (some ptr) }

/-- Record the removal of a map entry: of one's own block, or of another thread's. -/
def noteRemoved (s : Shared τ) (t : τ) (ptr : ℕ) : History τ :=
  let h := { s.history with stale := Function.update s.history.stale t none }
  match s.blocks.get? ptr with
  | none => h
  | some blk =>
    if blk.owner = t then { h with unrecorded := insert ptr h.unrecorded }
    else if ptr ∈ h.unrecorded then h
    else { h with clobbered := h.clobbered ++ [(t, ptr)] }

/-- Record bytes added to `unsafe_mem` for the block with this base. -/
def noteCounted (s : Shared τ) (base size : ℕ) : History τ :=
  match s.blocks.get? base with
  | none => s.history
  | some blk => { s.history with
      counted := Function.update s.history.counted blk.chain
        (s.history.counted blk.chain + size) }

section Fields

variable (s : Shared τ) (t : τ) (ptr : ℕ)

@[simp] theorem noteRemoved_born : (s.noteRemoved t ptr).born = s.history.born := by
  unfold noteRemoved
  grind

@[simp] theorem noteRemoved_latest : (s.noteRemoved t ptr).latest = s.history.latest := by
  unfold noteRemoved
  grind

@[simp] theorem noteRemoved_counted : (s.noteRemoved t ptr).counted = s.history.counted := by
  unfold noteRemoved
  grind

@[simp] theorem noteRemoved_stale :
    (s.noteRemoved t ptr).stale = Function.update s.history.stale t none := by
  unfold noteRemoved
  grind

/-- A removal unrecords only one's own block. -/
theorem mem_noteRemoved_unrecorded {b : ℕ} : b ∈ (s.noteRemoved t ptr).unrecorded ↔
    b ∈ s.history.unrecorded ∨ b = ptr ∧ ∃ blk ∈ s.blocks.get? ptr, blk.owner = t := by
  unfold noteRemoved
  grind

/-- A removal is harmless if the block with this base, if any, is one's own or not recorded. -/
theorem noteRemoved_clobbered_eq_nil : (s.noteRemoved t ptr).clobbered = [] ↔
    s.history.clobbered = [] ∧
      ∀ blk ∈ s.blocks.get? ptr, blk.owner = t ∨ ptr ∈ s.history.unrecorded := by
  unfold noteRemoved
  cases hblk : s.blocks.get? ptr with
  | none => simp
  | some blk =>
    by_cases hown : blk.owner = t
    · simp [hown]
    · by_cases hrec : ptr ∈ s.history.unrecorded <;> simp [hown, hrec]

end Fields

section Counted

variable {τ : Type} (s : Shared τ) (base size : ℕ)

theorem noteCounted_born : (s.noteCounted base size).born = s.history.born := by
  unfold noteCounted
  split <;> rfl

theorem noteCounted_latest : (s.noteCounted base size).latest = s.history.latest := by
  unfold noteCounted
  split <;> rfl

theorem noteCounted_unrecorded :
    (s.noteCounted base size).unrecorded = s.history.unrecorded := by
  unfold noteCounted
  split <;> rfl

theorem noteCounted_stale : (s.noteCounted base size).stale = s.history.stale := by
  unfold noteCounted
  split <;> rfl

theorem noteCounted_clobbered :
    (s.noteCounted base size).clobbered = s.history.clobbered := by
  unfold noteCounted
  split <;> rfl

end Counted

end Shared

/-! ## The atomic steps -/

section Steps

variable {τ : Type} [DecidableEq τ]

/-- A step of the tracker alone. -/
def trackerStep (_t : τ) (f : HeapTracker → HeapTracker) : Program (Shared τ) Unit :=
  .store fun s ↦ { s with tracker := f s.tracker }

/-- `counter.fetch_add(n)`. -/
def fetchAdd (t : τ) (c : HeapCounter) (n : ℕ) : Program (Shared τ) Unit :=
  trackerStep t (·.add c n)

/-- `counter.fetch_sub(n)`. -/
def fetchSub (t : τ) (c : HeapCounter) (n : ℕ) : Program (Shared τ) Unit :=
  trackerStep t (·.sub c n)

/-- `unsafe_mem.fetch_add(size)`, for the object with this base. -/
def countUnsafeMem (_t : τ) (base size : ℕ) : Program (Shared τ) Unit :=
  .store fun s ↦ { s with
    tracker := s.tracker.add .unsafeMem size
    history := s.noteCounted base size }

/-- `classify_obj_by_size`. -/
def classifyObjBySize (t : τ) (size : ℕ) (isUnsafe : Bool) : Program (Shared τ) Unit :=
  trackerStep t (·.classify size isUnsafe)

/-- `live_objs.lock().insert(ptr, size)`. -/
def liveInsert (_t : τ) (ptr size : ℕ) : Program (Shared τ) Unit :=
  .store fun s ↦ { s with
    tracker := s.tracker.insertLive ptr size
    history := { s.history with unrecorded := s.history.unrecorded.erase ptr } }

/-- `live_objs.lock().remove(&ptr)`. -/
def liveRemove (t : τ) (ptr : ℕ) : Program (Shared τ) Unit :=
  .store fun s ↦ { s with
    tracker := s.tracker.removeLive ptr
    history := s.noteRemoved t ptr }

/-- `live_objs.lock().range(..=addr).last()`, kept if it reaches the address. -/
def lookupObj (_t : τ) (addr : ℕ) : Program (Shared τ) (Option (ℕ × ℕ)) :=
  .load fun s ↦ s.tracker.lookup addr

/-- `live_unsafe_objs.lock().insert(base)`; whether the base was new. -/
def unsafeInsert (_t : τ) (base : ℕ) : Program (Shared τ) Bool :=
  .rmw fun s ↦ (!s.tracker.liveUnsafeObjs.contains base,
    { s with tracker := s.tracker.insertUnsafe base })

/-- `System.alloc` and `System.alloc_zeroed`. -/
def systemAlloc (t : τ) (size answer : ℕ) : Program (Shared τ) ℕ :=
  .rmw fun s ↦
    if h : s.blocks.get? answer = none ∧ s.blocks.Free answer size then
      (answer, { s with
        blocks := s.blocks.put answer ⟨size, t, s.history.born⟩ h.2
        history := { s.beginChain size with
          unrecorded := insert answer s.history.unrecorded } })
    else (0, s)

/-- `System.dealloc`. -/
def systemDealloc (_t : τ) (ptr : ℕ) : Program (Shared τ) Unit :=
  .store fun s ↦ { s with
    blocks := s.blocks.erase ptr
    history := { s.history with unrecorded := s.history.unrecorded.erase ptr } }

/-- `System.realloc`. -/
def systemRealloc (t : τ) (ptr newSize answer : ℕ) : Program (Shared τ) ℕ :=
  .rmw fun s ↦
    match s.blocks.get? ptr with
    | none => (0, s)
    | some blk =>
      if h : (s.blocks.erase ptr).get? answer = none ∧ (s.blocks.erase ptr).Free answer newSize then
        (answer, { s with
          blocks := (s.blocks.erase ptr).put answer { blk with size := newSize } h.2
          history := s.noteResize t ptr blk newSize answer })
      else (0, s)

end Steps

/-! ## The allocator interface

The thread-local state is the flag `SKIP_TRACKING`. -/

section Code

variable {τ : Type} [DecidableEq τ]

/-- The part of `Layout` the tracker uses. -/
structure Layout where
  size : ℕ
  deriving DecidableEq

/-- `insert_obj`. -/
def insertObj (t : τ) (ptr size : ℕ) : ThreadM Bool (Shared τ) Unit := do
  if ← get then return
  set true
  liveInsert t ptr size
  set false

/-- `remove_obj`. -/
def removeObj (t : τ) (ptr : ℕ) : ThreadM Bool (Shared τ) Unit := do
  if ← get then return
  set true
  liveRemove t ptr
  trackerStep t (·.removeUnsafe ptr)
  set false

/-- `find_heap_obj`. -/
def findHeapObj (t : τ) (ptr : ℕ) : ThreadM Bool (Shared τ) (Option (ℕ × ℕ)) := do
  if ← get then return none
  set true
  let obj ← lookupObj t ptr
  set false
  return obj

/-- `access_heap_obj`. -/
def accessHeapObj (t : τ) (ptr : ℕ) : ThreadM Bool (Shared τ) Unit := do
  if (← findHeapObj t ptr).isSome then fetchAdd t .totalMemInsts 1

/-- `access_unsafe_heap_obj`. -/
def accessUnsafeHeapObj (t : τ) (ptr : ℕ) (isLoad : Bool) : ThreadM Bool (Shared τ) Unit := do
  match ← findHeapObj t ptr with
  | none => return
  | some (base, size) =>
    if ← get then return
    set true
    if ← unsafeInsert t base then
      countUnsafeMem t base size
      fetchAdd t .totalUnsafeObjs 1
      classifyObjBySize t size true
    if isLoad then fetchAdd t .unsafeLoad 1
    else fetchAdd t .unsafeStore 1
    set false

/-- `GlobalAlloc::alloc`. -/
def alloc (t : τ) (layout : Layout) (answer : ℕ) : ThreadM Bool (Shared τ) ℕ := do
  let ptr ← systemAlloc t layout.size answer
  let skip ← get
  if ptr ≠ 0 ∧ skip = false then
    fetchAdd t .totalUsage layout.size
    fetchAdd t .totalAlloc 1
    classifyObjBySize t layout.size false
    insertObj t ptr layout.size
  return ptr

/-- `GlobalAlloc::alloc_zeroed`. -/
def allocZeroed (t : τ) (layout : Layout) (answer : ℕ) : ThreadM Bool (Shared τ) ℕ := do
  let ptr ← systemAlloc t layout.size answer
  let skip ← get
  if ptr ≠ 0 ∧ skip = false then
    fetchAdd t .totalUsage layout.size
    fetchAdd t .totalAlloc 1
    classifyObjBySize t layout.size false
    insertObj t ptr layout.size
  return ptr

/-- `GlobalAlloc::dealloc`. -/
def dealloc (t : τ) (ptr : ℕ) (_layout : Layout) : ThreadM Bool (Shared τ) Unit := do
  let skip ← get
  if skip = false then
    fetchAdd t .totalDealloc 1
    removeObj t ptr
  systemDealloc t ptr

/-- `GlobalAlloc::realloc`. -/
def realloc (t : τ) (ptr : ℕ) (layout : Layout) (newSize answer : ℕ) :
    ThreadM Bool (Shared τ) ℕ := do
  let newPtr ← systemRealloc t ptr newSize answer
  if newPtr = 0 then return newPtr
  let skip ← get
  if skip = false then
    if newPtr ≠ ptr then
      -- the old range is already free for any other thread
      removeObj t ptr
      fetchAdd t .totalRealloc 1
      classifyObjBySize t newSize false
    insertObj t newPtr newSize
  if newSize > layout.size then fetchAdd t .totalUsage (newSize - layout.size)
  else fetchSub t .totalUsage (layout.size - newSize)
  return newPtr

/-- The calls of the application and of its instrumentation. -/
inductive Call where
  | alloc (layout : Layout) (answer : ℕ)
  | allocZeroed (layout : Layout) (answer : ℕ)
  | dealloc (ptr : ℕ) (layout : Layout)
  | realloc (ptr : ℕ) (layout : Layout) (newSize answer : ℕ)
  | memAccess (ptr : ℕ)
  | unsafeMemAccess (ptr : ℕ) (isLoad : Bool)
  deriving DecidableEq

/-- The code of a call. -/
def Call.code (t : τ) : Call → ThreadM Bool (Shared τ) Unit
  | .alloc layout answer => do
    let _ ← Heap.alloc t layout answer
  | .allocZeroed layout answer => do
    let _ ← Heap.allocZeroed t layout answer
  | .dealloc ptr layout => Heap.dealloc t ptr layout
  | .realloc ptr layout newSize answer => do
    let _ ← Heap.realloc t ptr layout newSize answer
  | .memAccess ptr => accessHeapObj t ptr
  | .unsafeMemAccess ptr isLoad => accessUnsafeHeapObj t ptr isLoad

/-- The thread owns the block and knows its size. -/
def Owns (t : τ) (ptr size : ℕ) (s : Shared τ) : Prop :=
  (s.blocks.get? ptr).any fun blk ↦ blk.owner = t ∧ blk.size = size

instance (t : τ) (ptr size : ℕ) (s : Shared τ) : Decidable (Owns t ptr size s) :=
  inferInstanceAs (Decidable (_ = _))

theorem owns_iff {t : τ} {ptr size : ℕ} {s : Shared τ} : Owns t ptr size s ↔
    ∃ blk, s.blocks.get? ptr = some blk ∧ blk.owner = t ∧ blk.size = size := by
  simp [Owns, Option.any_eq_true]

/-- The obligations of the caller: sizes are not zero, and only one's own blocks are freed or
resized, with the size they have. -/
def Call.Allowed (t : τ) (s : Shared τ) : Call → Prop
  | .alloc layout _ | .allocZeroed layout _ => 0 < layout.size
  | .dealloc ptr layout => Owns t ptr layout.size s
  | .realloc ptr layout newSize _ => Owns t ptr layout.size s ∧ 0 < newSize
  | .memAccess _ | .unsafeMemAccess _ _ => True

instance (t : τ) (s : Shared τ) : (call : Call) → Decidable (call.Allowed t s)
  | .alloc _ _ | .allocZeroed _ _ => inferInstanceAs (Decidable (0 < _))
  | .dealloc _ _ => inferInstanceAs (Decidable (Owns ..))
  | .realloc _ _ _ _ => inferInstanceAs (Decidable (_ ∧ _))
  | .memAccess _ | .unsafeMemAccess _ _ => inferInstanceAs (Decidable True)

end Code

end UnsafePerf.Heap
