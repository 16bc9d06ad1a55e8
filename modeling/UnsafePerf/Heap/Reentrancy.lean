import UnsafePerf.Concurrency.Locks
import UnsafePerf.Heap.Tracker

/-!
# The allocator inside its own critical sections

The maps of the tracker allocate and free their nodes through the global allocator, which is the
tracker. So every map operation, made with a mutex held, may call the tracker again. What keeps the
inner call from locking is the thread-local flag `SKIP_TRACKING`, set and cleared by hand around each
of the four places that lock.

`Heap.Tracker` has the code with one atomic step for each critical section. Here it is again with
the mutexes taken and given back where the program does so, and with a callback before and after
each map operation, in which any call of the tracker may be made any number of times, its own
callbacks included. Left out are only the map operations' reads and writes of memory, which happen
under the mutex.

## Where the guards are dropped

A guard is a temporary and lives to the end of its statement, or of the condition it stands in.
`remove_obj` gives the first mutex back before it takes the second, and `access_unsafe_heap_obj`
counts after it has given the mutex back.

## The flag

`dump_stats` takes no mutex, and leaves the flag set: a thread that has run it is a thread that
begins with the flag set. Panics are left out.
-/

open Concurrency

namespace UnsafePerf.Heap

/-- The mutexes of the tracker. -/
inductive HeapMutex where
  | liveObjs
  | liveUnsafeObjs
  deriving DecidableEq

namespace Reentrant

/-! ## The code with its mutexes -/

section Code

variable {τ : Type} [DecidableEq τ] {α : Type}

/-- Code of the tracker with its mutexes. The thread-local state is the flag `SKIP_TRACKING`. -/
abbrev TrackerM (τ : Type) := LockM HeapMutex (Shared τ) Bool

/-- An operation on a map: what it allocates and frees goes to the tracker. -/
def mapOp (op : Program (Shared τ) α) : TrackerM τ α := do
  LockM.callback
  let a ← op
  LockM.callback
  return a

/-- `mutex.lock().unwrap()`, an operation on the map, and the end of the guard. -/
def locked (m : HeapMutex) (op : Program (Shared τ) α) : TrackerM τ α :=
  LockM.critical m (mapOp op)

/-- `insert_obj`. -/
def insertObj (t : τ) (ptr size : ℕ) : TrackerM τ Unit := do
  if ← get then return
  set true
  locked .liveObjs (liveInsert t ptr size)
  set false

/-- `remove_obj`. -/
def removeObj (t : τ) (ptr : ℕ) : TrackerM τ Unit := do
  if ← get then return
  set true
  locked .liveObjs (liveRemove t ptr)
  -- the first guard has ended with its statement
  locked .liveUnsafeObjs (trackerStep t (·.removeUnsafe ptr))
  set false

/-- `find_heap_obj`. -/
def findHeapObj (t : τ) (ptr : ℕ) : TrackerM τ (Option (ℕ × ℕ)) := do
  if ← get then return none
  set true
  let obj ← locked .liveObjs (lookupObj t ptr)
  set false
  return obj

/-- `access_heap_obj`. -/
def accessHeapObj (t : τ) (ptr : ℕ) : TrackerM τ Unit := do
  if (← findHeapObj t ptr).isSome then fetchAdd t .totalMemInsts 1

/-- `access_unsafe_heap_obj`. -/
def accessUnsafeHeapObj (t : τ) (ptr : ℕ) (isLoad : Bool) : TrackerM τ Unit := do
  match ← findHeapObj t ptr with
  | none => return
  | some (base, size) =>
    if ← get then return
    set true
    if ← locked .liveUnsafeObjs (unsafeInsert t base) then
      -- the guard has ended with the condition
      countUnsafeMem t base size
      fetchAdd t .totalUnsafeObjs 1
      classifyObjBySize t size true
    if isLoad then fetchAdd t .unsafeLoad 1
    else fetchAdd t .unsafeStore 1
    set false

/-- `GlobalAlloc::alloc`. -/
def alloc (t : τ) (layout : Layout) (answer : ℕ) : TrackerM τ ℕ := do
  let ptr ← systemAlloc t layout.size answer
  let skip ← get
  if ptr ≠ 0 ∧ skip = false then
    fetchAdd t .totalUsage layout.size
    fetchAdd t .totalAlloc 1
    classifyObjBySize t layout.size false
    insertObj t ptr layout.size
  return ptr

/-- `GlobalAlloc::alloc_zeroed`. -/
def allocZeroed (t : τ) (layout : Layout) (answer : ℕ) : TrackerM τ ℕ := do
  let ptr ← systemAlloc t layout.size answer
  let skip ← get
  if ptr ≠ 0 ∧ skip = false then
    fetchAdd t .totalUsage layout.size
    fetchAdd t .totalAlloc 1
    classifyObjBySize t layout.size false
    insertObj t ptr layout.size
  return ptr

/-- `GlobalAlloc::dealloc`. -/
def dealloc (t : τ) (ptr : ℕ) (_layout : Layout) : TrackerM τ Unit := do
  let skip ← get
  if skip = false then
    fetchAdd t .totalDealloc 1
    removeObj t ptr
  systemDealloc t ptr

/-- `GlobalAlloc::realloc`. -/
def realloc (t : τ) (ptr : ℕ) (layout : Layout) (newSize answer : ℕ) : TrackerM τ ℕ := do
  let newPtr ← systemRealloc t ptr newSize answer
  if newPtr = 0 then return newPtr
  let skip ← get
  if skip = false then
    if newPtr ≠ ptr then
      removeObj t ptr
      fetchAdd t .totalRealloc 1
      classifyObjBySize t newSize false
    insertObj t newPtr newSize
  if newSize > layout.size then fetchAdd t .totalUsage (newSize - layout.size)
  else fetchSub t .totalUsage (layout.size - newSize)
  return newPtr

/-- The code of a call. -/
def code (t : τ) : Call → TrackerM τ Unit
  | .alloc layout answer => do
    let _ ← alloc t layout answer
  | .allocZeroed layout answer => do
    let _ ← allocZeroed t layout answer
  | .dealloc ptr layout => dealloc t ptr layout
  | .realloc ptr layout newSize answer => do
    let _ ← realloc t ptr layout newSize answer
  | .memAccess ptr => accessHeapObj t ptr
  | .unsafeMemAccess ptr isLoad => accessUnsafeHeapObj t ptr isLoad

/-- The program of a call, from the flag on entry to the flag on return. -/
def service (t : τ) (call : Call) (skip : Bool) : LockProgram HeapMutex (Shared τ) Bool Bool :=
  Prod.snd <$> (code t call).run skip

end Code

/-! ## Without the mutexes -/

section Erase

open LockM

variable {τ : Type} {α : Type}

@[simp] theorem erase_locked (m : HeapMutex) (op : Program (Shared τ) α) :
    erase (locked m op) = liftM op := by
  simp [locked, mapOp]

variable (t : τ)

@[simp] theorem erase_insertObj (ptr size : ℕ) :
    erase (insertObj t ptr size) = Heap.insertObj t ptr size := by
  simp [insertObj, Heap.insertObj]

@[simp] theorem erase_findHeapObj (ptr : ℕ) :
    erase (findHeapObj t ptr) = Heap.findHeapObj t ptr := by
  simp [findHeapObj, Heap.findHeapObj]

@[simp] theorem erase_accessUnsafeHeapObj (ptr : ℕ) (isLoad : Bool) :
    erase (accessUnsafeHeapObj t ptr isLoad) = Heap.accessUnsafeHeapObj t ptr isLoad := by
  unfold accessUnsafeHeapObj Heap.accessUnsafeHeapObj
  rw [erase_bind, erase_findHeapObj]
  refine congrArg (_ >>= ·) (funext fun obj ↦ ?_)
  cases obj with
  | none => rfl
  | some entry => simp

variable [DecidableEq τ]

@[simp] theorem erase_removeObj (ptr : ℕ) : erase (removeObj t ptr) = Heap.removeObj t ptr := by
  simp [removeObj, Heap.removeObj]

/-- Without its mutexes, and with no inner calls, the code is that of `Call.code`. -/
theorem erase_code (call : Call) : erase (code t call) = call.code t := by
  cases call with
  | alloc layout answer => simp [code, Call.code, alloc, Heap.alloc]
  | allocZeroed layout answer => simp [code, Call.code, allocZeroed, Heap.allocZeroed]
  | dealloc ptr layout => simp [code, Call.code, dealloc, Heap.dealloc]
  | realloc ptr layout newSize answer => simp [code, Call.code, realloc, Heap.realloc]
  | memAccess ptr => simp [code, Call.code, accessHeapObj, Heap.accessHeapObj]
  | unsafeMemAccess ptr isLoad => simp [code, Call.code]

end Erase

/-! ## The discipline -/

section Discipline

open LockM

variable {τ : Type} {α : Type}

/-- The flag keeps the code from locking. -/
abbrev Quiet (skip : Bool) : Prop := skip = true

theorem careful_mapOp (op : Program (Shared τ) α) : Careful Quiet (mapOp op) :=
  careful_callback.bind fun _ ↦ (careful_lift op).bind fun a ↦
    careful_callback.bind fun _ ↦ careful_pure a

/-- Run with the flag set and nothing held, the code keeps the discipline and clears the flag. -/
def Clears (f : TrackerM τ α) : Prop :=
  (f.run true).Disciplined Quiet (fun r ↦ r.2 = false) none none

theorem clears_set : Clears (set false : TrackerM τ PUnit) := ⟨rfl, rfl⟩

theorem clears_return (a : α) : Clears (do set false; return a : TrackerM τ α) := ⟨rfl, rfl⟩

theorem Clears.ite {P : Prop} [Decidable P] {f g : TrackerM τ α} (hf : Clears f)
    (hg : Clears g) : Clears (if P then f else g) := by
  split
  · exact hf
  · exact hg

theorem clears_lift {β : Type} (p : Program (Shared τ) β) {f : β → TrackerM τ α}
    (h : ∀ b, Clears (f b)) : Clears (liftM p >>= f) := by
  have hlift : Careful Quiet (liftM p : TrackerM τ β) := careful_lift p
  refine (hlift true none fun _ ↦ rfl).bind ?_
  rintro ⟨b, skip⟩ rfl
  exact h b

/-- A critical section is entered with the flag set and nothing held, and is left so. -/
theorem clears_locked {β : Type} (m : HeapMutex) (op : Program (Shared τ) β)
    {f : β → TrackerM τ α} (h : ∀ b, Clears (f b)) : Clears (locked m op >>= f) := by
  refine ((careful_mapOp op).critical m rfl).bind ?_
  rintro ⟨b, skip⟩ rfl
  exact h b

/-- The guard around every use of a mutex. With the flag set nothing happens; nothing is held if it
is clear. -/
theorem careful_guard {f : TrackerM τ α} (a : α) (h : Clears f) :
    Careful Quiet (do
      if ← get then return a
      else
        set true
        f : TrackerM τ α) := by
  intro skip held hquiet
  cases skip with
  | true => exact ⟨rfl, rfl⟩
  | false =>
    obtain rfl : held = none := by
      by_contra hheld
      exact Bool.false_ne_true (hquiet hheld)
    exact h

theorem careful_insertObj (t : τ) (ptr size : ℕ) : Careful Quiet (insertObj t ptr size) :=
  careful_guard () (clears_locked .liveObjs _ fun _ ↦ clears_set)

theorem careful_findHeapObj (t : τ) (ptr : ℕ) : Careful Quiet (findHeapObj t ptr) :=
  careful_guard none (clears_locked .liveObjs _ clears_return)

/-- What follows the critical section only counts. -/
theorem careful_accessUnsafeHeapObj (t : τ) (ptr : ℕ) (isLoad : Bool) :
    Careful Quiet (accessUnsafeHeapObj t ptr isLoad) := by
  refine (careful_findHeapObj t ptr).bind fun obj ↦ ?_
  cases obj with
  | none => exact careful_pure ()
  | some entry =>
    have hlast : Clears (do
        if isLoad then fetchAdd t .unsafeLoad 1
        else fetchAdd t .unsafeStore 1
        set false : TrackerM τ Unit) :=
      .ite (clears_lift _ fun _ ↦ clears_set) (clears_lift _ fun _ ↦ clears_set)
    refine careful_guard () (clears_locked .liveUnsafeObjs _ fun isNew ↦ .ite ?_ hlast)
    exact clears_lift _ fun _ ↦ clears_lift _ fun _ ↦ clears_lift _ fun _ ↦ hlast

theorem careful_accessHeapObj (t : τ) (ptr : ℕ) : Careful Quiet (accessHeapObj t ptr) :=
  (careful_findHeapObj t ptr).bind fun _ ↦ .ite (careful_lift _) (careful_pure ())

theorem careful_alloc (t : τ) (layout : Layout) (answer : ℕ) :
    Careful Quiet (alloc t layout answer) := by
  refine (careful_lift _).bind fun ptr ↦ careful_get.bind fun skip ↦ .ite ?_ (careful_pure ptr)
  exact (careful_lift _).bind fun _ ↦ (careful_lift _).bind fun _ ↦ (careful_lift _).bind fun _ ↦
    (careful_insertObj t ptr layout.size).bind fun _ ↦ careful_pure ptr

variable [DecidableEq τ]

/-- The second mutex is taken after the first has been given back. -/
theorem careful_removeObj (t : τ) (ptr : ℕ) : Careful Quiet (removeObj t ptr) :=
  careful_guard () (clears_locked .liveObjs _ fun _ ↦
    clears_locked .liveUnsafeObjs _ fun _ ↦ clears_set)

theorem careful_dealloc (t : τ) (ptr : ℕ) (layout : Layout) :
    Careful Quiet (dealloc t ptr layout) := by
  refine careful_get.bind fun skip ↦ .ite ?_ (careful_lift _)
  exact (careful_lift _).bind fun _ ↦ (careful_removeObj t ptr).bind fun _ ↦ careful_lift _

theorem careful_realloc (t : τ) (ptr : ℕ) (layout : Layout) (newSize answer : ℕ) :
    Careful Quiet (realloc t ptr layout newSize answer) := by
  refine (careful_lift _).bind fun newPtr ↦ .ite (careful_pure newPtr) ?_
  have hlast : Careful Quiet (do
      if newSize > layout.size then fetchAdd t .totalUsage (newSize - layout.size)
      else fetchSub t .totalUsage (layout.size - newSize)
      return newPtr : TrackerM τ ℕ) :=
    .ite ((careful_lift _).bind fun _ ↦ careful_pure newPtr)
      ((careful_lift _).bind fun _ ↦ careful_pure newPtr)
  have hinsert := (careful_insertObj t newPtr newSize).bind fun _ ↦ hlast
  refine careful_get.bind fun skip ↦ .ite (.ite ?_ hinsert) hlast
  exact (careful_removeObj t ptr).bind fun _ ↦ (careful_lift _).bind fun _ ↦
    (careful_lift _).bind fun _ ↦ hinsert

/-- Every call is careful: it locks only with the flag clear and nothing held, and leaves the flag
as it was. -/
theorem careful_code (t : τ) (call : Call) : Careful Quiet (code t call) := by
  cases call with
  | alloc layout answer => exact (careful_alloc t layout answer).bind fun _ ↦ careful_pure ()
  | allocZeroed layout answer => exact (careful_alloc t layout answer).bind fun _ ↦ careful_pure ()
  | dealloc ptr layout => exact careful_dealloc t ptr layout
  | realloc ptr layout newSize answer =>
    exact (careful_realloc t ptr layout newSize answer).bind fun _ ↦ careful_pure ()
  | memAccess ptr => exact careful_accessHeapObj t ptr
  | unsafeMemAccess ptr isLoad => exact careful_accessUnsafeHeapObj t ptr isLoad

end Discipline

/-! ## Every execution -/

section Executions

variable {τ : Type} [DecidableEq τ] {α : Type}

theorem allDisciplined_service (t : τ) : LockProgram.AllDisciplined Quiet (service t) :=
  LockM.allDisciplined (careful_code t)

/-- Whenever the code returns, the flag is what it was on entry, whatever other threads do meanwhile
and whatever calls the map operations make. -/
def Restores (t : τ) (f : TrackerM τ α) : Prop :=
  ∀ (others : Shared τ → Shared τ → Prop) (skip : Bool) (s : Shared τ) (r : α × Bool)
    (s' : Shared τ), (f.run skip).Runs others (service t) s r s' → r.2 = skip

/-- Among these executions there is always one to the end, in which the map operations call
nothing. -/
theorem exists_runs (t : τ) (f : TrackerM τ α) (others : Shared τ → Shared τ → Prop) (skip : Bool)
    (s : Shared τ) : ∃ r s', (f.run skip).Runs others (service t) s r s' :=
  ⟨_, _, .of_erase _ (Program.runs_exec others (f.run skip).erase s)⟩

theorem restores_of_careful {t : τ} {f : TrackerM τ α} (h : LockM.Careful Quiet f) :
    Restores t f :=
  fun _ _ _ _ _ hruns ↦ h.locals_eq (allDisciplined_service t) hruns

/-- A run of the tracker, in which the map operations may call it again. -/
def execution (s : Shared τ) (skip : τ → Bool) (ms : List (Move τ Call)) :
    LockConfig τ HeapMutex (Shared τ) Bool :=
  LockConfig.run service (.start s skip) ms

theorem sound_execution (s : Shared τ) (skip : τ → Bool) (ms : List (Move τ Call)) :
    (execution s skip ms).Sound Quiet skip :=
  LockConfig.sound_run allDisciplined_service (LockConfig.sound_start s) ms

/-- A thread between calls has the flag it began with. -/
theorem flag_of_idle {s : Shared τ} {skip : τ → Bool} {ms : List (Move τ Call)} {t : τ}
    {flag : Bool} (h : (execution s skip ms).thread t = ⟨.done flag, []⟩) : flag = skip t :=
  (sound_execution s skip ms).locals_eq h

/-- **The tracker never deadlocks on itself.** Whatever the map operations call, on any number of
threads and in any interleaving, a thread that is about to lock holds no mutex, so no threads wait
for each other in a circle; and the functions that lock leave the flag as they found it. -/
theorem no_deadlock (s : Shared τ) (skip : τ → Bool) (ms : List (Move τ Call)) :
    (∀ t m, (execution s skip ms).Attempts t m → ∀ m', ¬(execution s skip ms).Holds t m') ∧
    (∀ t, ¬Relation.TransGen (execution s skip ms).Waits t t) ∧
    (∀ t ptr size, Restores t (insertObj t ptr size : TrackerM τ Unit)) ∧
    (∀ t ptr, Restores t (removeObj t ptr : TrackerM τ Unit)) ∧
    (∀ t ptr, Restores t (findHeapObj t ptr : TrackerM τ (Option (ℕ × ℕ)))) ∧
    ∀ t ptr isLoad, Restores t (accessUnsafeHeapObj t ptr isLoad : TrackerM τ Unit) := by
  have hfree := fun t m ↦ (sound_execution s skip ms).not_holds (t := t) (m := m)
  refine ⟨hfree, LockConfig.not_transGen_waits hfree, fun t ptr size ↦ ?_, fun t ptr ↦ ?_,
    fun t ptr ↦ ?_, fun t ptr isLoad ↦ ?_⟩
  · exact restores_of_careful (careful_insertObj t ptr size)
  · exact restores_of_careful (careful_removeObj t ptr)
  · exact restores_of_careful (careful_findHeapObj t ptr)
  · exact restores_of_careful (careful_accessUnsafeHeapObj t ptr isLoad)

/-- The first thread's map allocates while it is being changed; the second waits for the first. -/
private def nestedAlloc : List (Move Bool Call) :=
  .call false (.alloc ⟨8⟩ 100) :: List.replicate 5 (.step false) ++
    [.call false (.alloc ⟨64⟩ 200), .step false, .call true (.memAccess 100)]

theorem no_deadlock_nestedAlloc :
    let c := execution .new (fun _ ↦ false) nestedAlloc
    c.Waits true false ∧ (c.thread false).suspended.length = 1 ∧
      (∀ m, ¬c.Holds true m) ∧ ¬Relation.TransGen c.Waits true true := by
  have hattempts : (execution .new (fun _ ↦ false) nestedAlloc).Attempts true .liveObjs := by
    decide +kernel
  have h := no_deadlock .new (fun _ ↦ false) nestedAlloc
  exact ⟨⟨.liveObjs, hattempts, by decide +kernel⟩, by decide +kernel, h.1 true _ hattempts,
    h.2.1 true⟩

end Executions

end Reentrant

end UnsafePerf.Heap
