import UnsafePerf.Heap.Skipping

/-!
# Writing a report in a build with the heap tracker

`write_output` sets the thread-local flag `GLOBAL_SKIP_TRACKING` while it writes, to keep the
allocations of the file I/O out of the figures, and restores it on every path. The heap tracker has
a flag of its own, `SKIP_TRACKING`, and reads no other. So `write_output` does restore its flag, and
the flag has no effect: what the I/O allocates is tracked like everything else, unless the caller
has set `SKIP_TRACKING`, as the report of the heap tracker itself does.

## What the I/O does

Content and file name, and the environment, decide which calls of the allocator the library makes
and whether opening and writing succeed. These are the arguments of `writeOutput`, in the order of
the source; a step may be another call of `write_output`. Every statement is for all of them.
-/

open Concurrency Ranges Std

namespace UnsafePerf.Heap

/-- The thread-local flags `GLOBAL_SKIP_TRACKING` and `SKIP_TRACKING`. -/
structure Flags where
  globalSkip : Bool
  skip : Bool
  deriving DecidableEq

/-- `IoResult<()>`: success, or the error. -/
abbrev IoResult := Except ℕ Unit

section Code

variable {τ : Type} [DecidableEq τ]

/-- `write_output`. The arguments are what its library calls do, and whether opening the file and
writing to it succeed. -/
def writeOutput (_t : τ)
    (outputDir createDirs openFile writeContent dropLocals : ThreadM Flags (Shared τ) Unit)
    (opened written : IoResult) : ThreadM Flags (Shared τ) IoResult := do
  let wasTracking := (← get).globalSkip
  modify fun flags ↦ { flags with globalSkip := true }
  outputDir
  -- the result of creating the directories is ignored
  createDirs
  openFile
  let result ← match opened with
    | .error e => pure (.error e)
    | .ok () => do
      writeContent
      pure written
  dropLocals
  modify fun flags ↦ { flags with globalSkip := wasTracking }
  return result

/-- A call of the heap tracker, which knows `SKIP_TRACKING` only. -/
def heapCode (t : τ) (call : Call) : ThreadM Flags (Shared τ) Unit := do
  let flags ← get
  let (_, skip) ← liftM ((call.code t).run flags.skip)
  set { flags with skip }

/-- What the library does on behalf of `write_output`: calls of the allocator and, in between,
further calls of `write_output`. -/
inductive IoSteps where
  | done
  | heap (call : Call) (rest : IoSteps)
  | writeOutput (outputDir createDirs openFile writeContent dropLocals : IoSteps)
      (opened written : IoResult) (rest : IoSteps)

/-- The code of the steps. -/
def IoSteps.code (t : τ) : IoSteps → ThreadM Flags (Shared τ) Unit
  | .done => return
  | .heap call rest => do
    heapCode t call
    rest.code t
  | .writeOutput outputDir createDirs openFile writeContent dropLocals opened written rest => do
    let _ ← Heap.writeOutput t (outputDir.code t) (createDirs.code t) (openFile.code t)
      (writeContent.code t) (dropLocals.code t) opened written
    rest.code t

/-- The calls of the heap tracker that a call of `write_output` makes. -/
def ioCalls (outputDir createDirs openFile writeContent dropLocals : List Call)
    (opened : IoResult) : List Call :=
  outputDir ++ createDirs ++ openFile ++ (if opened.isOk then writeContent else []) ++ dropLocals

/-- The calls of the heap tracker that the steps make. -/
def IoSteps.calls : IoSteps → List Call
  | .done => []
  | .heap call rest => call :: rest.calls
  | .writeOutput outputDir createDirs openFile writeContent dropLocals opened _ rest =>
    ioCalls outputDir.calls createDirs.calls openFile.calls writeContent.calls dropLocals.calls
      opened ++ rest.calls

end Code

/-! ## The flag is restored and nothing reads it -/

section Program

variable {τ : Type} [DecidableEq τ] (t : τ)

/-- The code makes these calls, whatever `GLOBAL_SKIP_TRACKING` is, and leaves it alone. -/
def Makes (m : ThreadM Flags (Shared τ) Unit) (calls : List Call) : Prop :=
  ∀ flags : Flags, m.run flags = (calls.forM (Call.code t)).run flags.skip >>= fun r ↦
    .done ((), { flags with skip := r.2 })

theorem forM_code_append (calls calls' : List Call) (skip : Bool) :
    ((calls ++ calls').forM (Call.code t)).run skip
      = (calls.forM (Call.code t)).run skip >>= fun r ↦ (calls'.forM (Call.code t)).run r.2 := by
  induction calls generalizing skip with
  | nil => rfl
  | cons call calls ih =>
    change ((call.code t).run skip >>= fun r ↦ ((calls ++ calls').forM (Call.code t)).run r.2)
      = ((call.code t).run skip >>= fun r ↦ (calls.forM (Call.code t)).run r.2) >>= _
    rw [bind_assoc]
    exact bind_congr fun r ↦ ih r.2

namespace Makes

variable {t}

theorem nil : Makes t (pure ()) [] := fun _ ↦ rfl

theorem heapCode (call : Call) : Makes t (heapCode t call) [call] := by
  intro flags
  change ((call.code t).run flags.skip >>= fun r ↦ _) >>= _
    = ((call.code t).run flags.skip >>= fun r ↦ _) >>= _
  simp only [bind_assoc]
  rfl

theorem append {m m' : ThreadM Flags (Shared τ) Unit} {calls calls' : List Call}
    (h : Makes t m calls) (h' : Makes t m' calls') :
    Makes t (do m; m') (calls ++ calls') := by
  intro flags
  rw [ThreadM.run_bind, h flags, forM_code_append, bind_assoc, bind_assoc]
  refine bind_congr fun r ↦ ?_
  exact h' { flags with skip := r.2 }

/-- `write_output` makes the calls of its parts, restores its flag, and reports the first error. -/
theorem writeOutput_run {dir create openF write drops : ThreadM Flags (Shared τ) Unit}
    {dirCalls createCalls openCalls writeCalls dropCalls : List Call} (hdir : Makes t dir dirCalls)
    (hcreate : Makes t create createCalls) (hopen : Makes t openF openCalls)
    (hwrite : Makes t write writeCalls) (hdrops : Makes t drops dropCalls)
    (opened written : IoResult) (flags : Flags) :
    (writeOutput t dir create openF write drops opened written).run flags
      = ((ioCalls dirCalls createCalls openCalls writeCalls dropCalls opened).forM
          (Call.code t)).run flags.skip >>= fun r ↦
        .done (opened >>= fun _ ↦ written, { flags with skip := r.2 }) := by
  cases opened with
  | error e =>
    simp only [writeOutput, ThreadM.run_bind, ThreadM.run_get, ThreadM.run_modify,
      ThreadM.run_pure, hdir _, hcreate _, hopen _, hdrops _, ioCalls, forM_code_append,
      bind_assoc, Program.done_bind]
    rfl
  | ok =>
    simp only [writeOutput, ThreadM.run_bind, ThreadM.run_get, ThreadM.run_modify,
      ThreadM.run_pure, hdir _, hcreate _, hopen _, hwrite _, hdrops _, ioCalls,
      forM_code_append, bind_assoc, Program.done_bind]
    rfl

end Makes

/-- The steps make their calls, and the calls of `write_output` among them restore the flag. -/
theorem IoSteps.makes (steps : IoSteps) : Makes t (steps.code t) steps.calls := by
  induction steps with
  | done => exact .nil
  | heap call rest ih => exact (Makes.heapCode call).append ih
  | writeOutput outputDir createDirs openFile writeContent dropLocals opened written rest
      hdir hcreate hopen hwrite hdrops ih =>
    intro flags
    rw [IoSteps.code, ThreadM.run_bind, hdir.writeOutput_run hcreate hopen hwrite hdrops,
      IoSteps.calls, forM_code_append, bind_assoc, bind_assoc]
    exact bind_congr fun r ↦ ih { flags with skip := r.2 }

end Program

/-! ## Calls that leave no trace -/

/-- The step leaves the tracker as it is. -/
def SameTracker {τ : Type} (s s' : Shared τ) : Prop := s'.tracker = s.tracker

/-- The call leaves no trace in the tracker. With the flag set it must not resize a block to another
size. With the flag clear it must come to nothing, or resize a block in place to the size the
tracker already has for it. -/
def Call.Silent {τ : Type} (skip : Bool) (s : Shared τ) : Call → Prop
  | .alloc layout answer | .allocZeroed layout answer =>
    skip = true ∨ ¬(s.blocks.get? answer = none ∧ s.blocks.Free answer layout.size)
  | .dealloc _ _ => skip = true
  | .realloc ptr layout newSize answer => s.GrantsRealloc ptr newSize answer →
    newSize = layout.size ∧ (skip = true ∨ answer = ptr ∧ s.tracker.liveObjs[ptr]? = some newSize)
  | .memAccess ptr | .unsafeMemAccess ptr _ => skip = true ∨ s.tracker.lookup ptr = none

namespace HeapTracker

variable (h : HeapTracker)

/-- Counting an event is never without trace. -/
theorem add_one_ne (c : HeapCounter) : h.add c 1 ≠ h := by
  intro heq
  have hcounter := congrArg (fun h' : HeapTracker ↦ h'.counters c) heq
  simp only [counters_add, if_true] at hcounter
  omega

theorem adjust_eq_self_iff {oldSize newSize : ℕ} (hold : oldSize < 2 ^ 64) (hnew : newSize < 2 ^ 64)
    (husage : h.counters .totalUsage < 2 ^ 64) :
    h.adjust oldSize newSize = h ↔ newSize = oldSize := by
  rw [adjust_eq_withUsage h hold, withUsage_eq_self_iff]
  omega

theorem insertLive_eq_self_iff (ptr size : ℕ) :
    h.insertLive ptr size = h ↔ h.liveObjs[ptr]? = some size := by
  constructor
  · intro heq
    rw [← heq, liveObjs_insertLive, Ranges.getElem?_insert_nat, if_pos rfl]
  · intro hsize
    have hsame : h.liveObjs.insert ptr size = h.liveObjs := by
      refine ExtTreeMap.ext_getElem? fun b ↦ ?_
      rw [Ranges.getElem?_insert_nat]
      split
      · next heq => rw [← heq, hsize]
      · rfl
    rw [insertLive, hsame]

end HeapTracker

section Silent

variable {τ : Type} (t : τ) (s : Shared τ)

theorem trackerStep_keeps (f : HeapTracker → HeapTracker) :
    (trackerStep t f).ExecKeeps SameTracker s ↔ f s.tracker = s.tracker :=
  Program.execKeeps_store ..

theorem systemAlloc_keeps (size answer : ℕ) :
    (systemAlloc t size answer).ExecKeeps SameTracker s :=
  (Program.execKeeps_rmw ..).mpr (systemAlloc_exec_tracker t s size answer)

/-- A tracked allocation that the system grants is counted. -/
theorem alloc_keeps (skip : Bool) (layout : Layout) (answer : ℕ) :
    ((Heap.alloc t layout answer).run skip).ExecKeeps SameTracker s ↔
      (Call.alloc layout answer).Silent skip s := by
  have hsystem := systemAlloc_keeps t s layout.size answer
  by_cases hgrant : s.blocks.get? answer = none ∧ s.blocks.Free answer layout.size
  · have hne : answer ≠ 0 := Nat.pos_iff_ne_zero.mp hgrant.2.1.1
    cases skip with
    | true => simp [Heap.alloc, Call.Silent, hsystem]
    | false =>
      simp [Heap.alloc, Call.Silent, hsystem, systemAlloc_exec t s hgrant, hgrant, hne, fetchAdd,
        trackerStep_keeps, HeapTracker.add_one_ne]
  · simp [Heap.alloc, Call.Silent, hsystem, systemAlloc_exec_null t s hgrant, hgrant]

variable [DecidableEq τ]

theorem systemRealloc_keeps (ptr newSize answer : ℕ) :
    (systemRealloc t ptr newSize answer).ExecKeeps SameTracker s :=
  (Program.execKeeps_rmw ..).mpr (systemRealloc_exec_tracker t s ptr newSize answer)

theorem dealloc_keeps (skip : Bool) (ptr : ℕ) (layout : Layout) :
    ((Heap.dealloc t ptr layout).run skip).ExecKeeps SameTracker s ↔
      (Call.dealloc ptr layout).Silent skip s := by
  cases skip with
  | true => simp [Heap.dealloc, Call.Silent, systemDealloc, SameTracker]
  | false =>
    simp [Heap.dealloc, Call.Silent, fetchAdd, trackerStep_keeps, HeapTracker.add_one_ne]

omit [DecidableEq τ] in
theorem insertObj_keeps (ptr size : ℕ) :
    ((insertObj t ptr size).run false).ExecKeeps SameTracker s ↔
      s.tracker.liveObjs[ptr]? = some size := by
  rw [← HeapTracker.insertLive_eq_self_iff]
  simp [insertObj, liveInsert, SameTracker]

/-- Resizing a block is without trace if the tracker has the block with its new size already and the
bytes in use do not change. -/
theorem realloc_keeps (hfits : s.tracker.Fits) (skip : Bool) (ptr : ℕ) (layout : Layout)
    (newSize answer : ℕ) (hold : layout.size < 2 ^ 64) (hnew : newSize < 2 ^ 64) :
    ((Heap.realloc t ptr layout newSize answer).run skip).ExecKeeps SameTracker s ↔
      (Call.realloc ptr layout newSize answer).Silent skip s := by
  have hsystem := systemRealloc_keeps t s ptr newSize answer
  have hnull := systemRealloc_exec_ne_zero_iff t s ptr newSize answer
  have htracker := systemRealloc_exec_tracker t s ptr newSize answer
  by_cases hgrant : s.GrantsRealloc ptr newSize answer
  · obtain ⟨blk, hblk⟩ := Option.isSome_iff_exists.mp hgrant.1
    have hexec := systemRealloc_exec t s hblk hgrant.2
    have hne : answer ≠ 0 := Nat.pos_iff_ne_zero.mp hgrant.2.2.1.1
    -- the last step is silent just if the size stays the same
    have hadjust : ∀ s' : Shared τ, s'.tracker = s.tracker →
        ((if newSize > layout.size then fetchAdd t .totalUsage (newSize - layout.size)
          else fetchSub t .totalUsage (layout.size - newSize)).ExecKeeps SameTracker s' ↔
            newSize = layout.size) := by
      intro s' hs'
      rw [← s.tracker.adjust_eq_self_iff hold hnew (hfits _), HeapTracker.adjust, ← hs']
      split
      · exact trackerStep_keeps ..
      · exact trackerStep_keeps ..
    have hsame : (s.resized t ptr newSize answer blk hgrant.2.2).tracker = s.tracker := rfl
    cases skip with
    | true =>
      have hlast := hadjust _ hsame
      by_cases hgt : newSize > layout.size
      · rw [if_pos hgt] at hlast
        simp [Heap.realloc, Call.Silent, hsystem, hexec, hgrant, hne, hgt, hlast]
      · rw [if_neg hgt] at hlast
        simp [Heap.realloc, Call.Silent, hsystem, hexec, hgrant, hne, hgt, hlast]
    | false =>
      by_cases hmoved : answer = ptr
      · subst hmoved
        have hlive := insertObj_keeps t (s.resized t answer newSize answer blk hgrant.2.2) answer newSize
        rw [hsame] at hlive
        by_cases hgt : newSize > layout.size
        · simp only [if_pos hgt] at hadjust
          simp [Heap.realloc, Call.Silent, hsystem, hexec, hgrant, hne, hgt, hlive]
          rw [and_comm]
          exact and_congr_left fun h ↦ hadjust _ ((s.tracker.insertLive_eq_self_iff ..).mpr h)
        · simp only [if_neg hgt] at hadjust
          simp [Heap.realloc, Call.Silent, hsystem, hexec, hgrant, hne, hgt, hlive]
          rw [and_comm]
          exact and_congr_left fun h ↦ hadjust _ ((s.tracker.insertLive_eq_self_iff ..).mpr h)
      · simp [Heap.realloc, Call.Silent, hsystem, hexec, hgrant, hne, hmoved, fetchAdd,
          trackerStep_keeps, HeapTracker.add_one_ne]
  · have hzero : ((systemRealloc t ptr newSize answer).exec s).1 = 0 := not_not.mp (mt hnull.mp hgrant)
    simp [Heap.realloc, Call.Silent, hsystem, hzero, hgrant]

/-- A call leaves no trace just if it is silent. -/
theorem code_keeps (hfits : s.tracker.Fits) (skip : Bool) (call : Call) (hsize : call.FitsUsize) :
    ((call.code t).run skip).ExecKeeps SameTracker s ↔ call.Silent skip s := by
  cases call with
  | alloc layout answer | allocZeroed layout answer =>
    exact (Program.execKeeps_map ..).trans (alloc_keeps t s skip layout answer)
  | dealloc ptr layout => exact dealloc_keeps t s skip ptr layout
  | realloc ptr layout newSize answer =>
    exact (Program.execKeeps_map ..).trans
      (realloc_keeps t s hfits skip ptr layout newSize answer hsize.1 hsize.2)
  | memAccess ptr =>
    cases skip with
    | true => simp [Call.code, Call.Silent, accessHeapObj, findHeapObj]
    | false =>
      cases hobj : s.tracker.lookup ptr with
      | none =>
        simp [Call.code, Call.Silent, accessHeapObj, findHeapObj, lookupObj, hobj, SameTracker]
      | some obj =>
        simp [Call.code, Call.Silent, accessHeapObj, hobj, fetchAdd, trackerStep_keeps,
          HeapTracker.add_one_ne]
  | unsafeMemAccess ptr isLoad =>
    cases skip with
    | true => simp [Call.code, Call.Silent, accessUnsafeHeapObj, findHeapObj]
    | false =>
      cases hobj : s.tracker.lookup ptr with
      | none =>
        simp [Call.code, Call.Silent, accessUnsafeHeapObj, findHeapObj, lookupObj, hobj, SameTracker]
      | some obj =>
        -- whether or not the object is new, the access itself is counted
        cases hnew : ((unsafeInsert t obj.1).exec s).1 <;> cases isLoad <;>
          simp [Call.code, Call.Silent, accessUnsafeHeapObj, hobj, hnew, fetchAdd,
            trackerStep_keeps, HeapTracker.add_one_ne]

/-- Calls that leave no trace, each in the state it is made in. -/
def SilentCalls (skip : Bool) (s : Shared τ) : List Call → Prop
  | [] => True
  | call :: calls =>
    call.Silent skip s ∧ SilentCalls skip (((call.code t).run skip).exec s).2 calls

/-- A call leaves the flag as it is. -/
theorem code_exec_flag (skip : Bool) (call : Call) :
    (((call.code t).run skip).exec s).1.2 = skip := by
  cases skip with
  | true => exact (code_exec_skip t s call).1
  | false => rw [code_exec t s call]

theorem forM_code_exec_flag (skip : Bool) (calls : List Call) :
    (((calls.forM (Call.code t)).run skip).exec s).1.2 = skip := by
  induction calls generalizing s with
  | nil => rfl
  | cons call calls ih =>
    have hflag := code_exec_flag t s skip call
    have hrest := ih (((call.code t).run skip).exec s).2
    change (((call.code t).run skip >>= fun r ↦ (calls.forM (Call.code t)).run r.2).exec s).1.2 = _
    rwa [Program.exec_bind, hflag]

/-- A sequence of calls leaves no trace just if each of them is silent. -/
theorem forM_code_keeps (skip : Bool) (calls : List Call)
    (hsizes : ∀ call ∈ calls, call.FitsUsize) (hfits : s.tracker.Fits) :
    ((calls.forM (Call.code t)).run skip).ExecKeeps SameTracker s ↔
      SilentCalls t skip s calls := by
  induction calls generalizing s with
  | nil => exact Iff.rfl
  | cons call calls ih =>
    have hflag := code_exec_flag t s skip call
    have hcall := code_keeps t s hfits skip call (hsizes call List.mem_cons_self)
    change ((call.code t).run skip >>= fun r ↦ (calls.forM (Call.code t)).run r.2).ExecKeeps _ _ ↔ _
    rw [Program.execKeeps_bind, hflag, hcall, SilentCalls]
    refine and_congr_right fun hsilent ↦ ih _ (fun c hc ↦ hsizes c (List.mem_cons_of_mem _ hc)) ?_
    -- the tracker is still the same, so its counters still fit
    have hsame : (((call.code t).run skip).exec s).2.tracker = s.tracker :=
      (hcall.mpr hsilent).exec (R := SameTracker) (fun _ ↦ rfl) fun _ _ _ h h' ↦ h'.trans h
    rwa [hsame]

end Silent

/-! ## Writing a report -/

section WriteOutput

variable {τ : Type} [DecidableEq τ] (t : τ)

/-- A call of `write_output` with these steps, made with these flags. -/
def runWriteOutput (flags : Flags)
    (outputDir createDirs openFile writeContent dropLocals : IoSteps) (opened written : IoResult) :
    Program (Shared τ) (IoResult × Flags) :=
  (writeOutput t (outputDir.code t) (createDirs.code t) (openFile.code t) (writeContent.code t)
    (dropLocals.code t) opened written).run flags

/-- A call of `write_output`, successful or not and with other calls inside it or not, restores its
flag. It is invisible to the heap tracker just if each call of the allocator it makes leaves no
trace, and only `SKIP_TRACKING`, which it does not set, has a part in this. -/
theorem write_output_invisible_iff (s : Shared τ) (hfits : s.tracker.Fits) (flags : Flags)
    (outputDir createDirs openFile writeContent dropLocals : IoSteps) (opened written : IoResult)
    (hsizes : ∀ call ∈ ioCalls outputDir.calls createDirs.calls openFile.calls writeContent.calls
      dropLocals.calls opened, call.FitsUsize) :
    let program :=
      runWriteOutput t flags outputDir createDirs openFile writeContent dropLocals opened written
    (program.exec s).1 = (opened >>= fun _ ↦ written, flags) ∧
      (program.ExecKeeps SameTracker s ↔
        SilentCalls t flags.skip s (ioCalls outputDir.calls createDirs.calls openFile.calls
          writeContent.calls dropLocals.calls opened)) := by
  intro program
  set calls := ioCalls outputDir.calls createDirs.calls openFile.calls writeContent.calls
    dropLocals.calls opened
  have hrun : program = (calls.forM (Call.code t)).run flags.skip >>= fun r ↦
      .done (opened >>= fun _ ↦ written, { flags with skip := r.2 }) :=
    (outputDir.makes t).writeOutput_run (createDirs.makes t) (openFile.makes t)
      (writeContent.makes t) (dropLocals.makes t) opened written flags
  have hflag := forM_code_exec_flag t s flags.skip calls
  have hkeeps := forM_code_keeps t s flags.skip calls hsizes hfits
  rw [hrun, Program.exec_bind, Program.exec_done, hflag, Program.execKeeps_bind, hkeeps]
  exact ⟨rfl, and_iff_left trivial⟩

end WriteOutput

/-- The path of the file is built, and freed at the end. -/
def pathBuilt (p : ℕ) : IoSteps := .heap (.alloc ⟨16⟩ p) .done

/-- A block of 16 bytes is freed. -/
def pathDropped (p : ℕ) : IoSteps := .heap (.dealloc p ⟨16⟩) .done

/-- The call made by the report of the heap tracker, which has set its own flag, with another call
of `write_output` inside and a file that cannot be opened. -/
theorem write_output_invisible_iff_ownReport :
    let nested : IoSteps := .writeOutput (pathBuilt 8192) .done .done .done (pathDropped 8192)
      (.ok ()) (.ok ()) .done
    let program : Program State (IoResult × Flags) := runWriteOutput () ⟨false, true⟩
      (pathBuilt 4096) nested .done .done (pathDropped 4096) (.error 13) (.ok ())
    (program.exec Shared.new).1 = (.error 13, ⟨false, true⟩) ∧
      program.ExecKeeps SameTracker Shared.new := by
  intro nested program
  have hfits : (Shared.new : State).tracker.Fits := fun _ ↦ (by decide : 0 < 2 ^ 64)
  obtain ⟨hresult, hiff⟩ := write_output_invisible_iff () (Shared.new : State) hfits ⟨false, true⟩
    (pathBuilt 4096) nested .done .done (pathDropped 4096) (.error 13) (.ok ()) (by decide)
  exact ⟨hresult, hiff.mpr ⟨.inl rfl, .inl rfl, rfl, rfl, trivial⟩⟩

theorem write_output_visible :
    ¬∀ (s : State) (flags : Flags)
      (outputDir createDirs openFile writeContent dropLocals : IoSteps) (opened written : IoResult),
      ((runWriteOutput () flags outputDir createDirs openFile writeContent dropLocals opened
        written).exec s).2.tracker = s.tracker := by
  intro h
  have hsame := h .new ⟨false, false⟩ (pathBuilt 4096) .done .done .done (pathDropped 4096)
    (.ok ()) (.ok ())
  have hcount : ((runWriteOutput () ⟨false, false⟩ (pathBuilt 4096) .done .done .done
      (pathDropped 4096) (.ok ()) (.ok ())).exec (.new : State)).2.tracker.counters .totalAlloc
        = 1 := by decide +kernel
  rw [hsame] at hcount
  exact absurd hcount (by decide)

end UnsafePerf.Heap
