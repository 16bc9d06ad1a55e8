import UnsafePerf.CpuCycle.Registry

/-!
# The hooks of the cycle counter

The instrumented program calls two pairs of hooks, one around unsafe regions and one around
external calls, and each thread keeps a stack of at most `maxContextDepth` contexts in thread-local
storage. A region hook rewrites the state of the top context; an external call pushes a context and
its return pops one. The time since the top context was last touched is charged, at every change,
to the counter of the state it was in.

The four functions that change the context repeat one block, which is `account` here.

## Inputs

A hook reads the time stamp counter up to three times: when it has to initialize the thread first,
for the change itself, and for the value it returns. These readings and the thread's identity are
the hook's `Inputs`.
-/

open Concurrency

namespace UnsafePerf.CpuCycle

/-- The capacity of the context stack. -/
def maxContextDepth : ℕ := 32

/-- What a thread is executing. -/
inductive ExecutionState where
  /-- Safe code. -/
  | normal
  /-- Unsafe code, not in an external call. -/
  | unsafeCode
  /-- An external call from safe code. -/
  | externalSafe
  /-- An external call from unsafe code. -/
  | externalUnsafe
  deriving DecidableEq

/-- The counter a state is charged to. -/
def ExecutionState.counter : ExecutionState → Counter
  | .normal => .normalCycles
  | .unsafeCode => .unsafeCycles
  | .externalSafe => .externalSafeCycles
  | .externalUnsafe => .externalUnsafeCycles

namespace ExecutionState

/-- The state in which an unsafe region begins. -/
def enterUnsafe : ExecutionState → ExecutionState
  | .normal => .unsafeCode
  | .externalSafe => .externalUnsafe
  | state => state

/-- The state in which an unsafe region ends. -/
def leaveUnsafe : ExecutionState → ExecutionState
  | .unsafeCode => .normal
  | .externalUnsafe => .externalSafe
  | state => state

/-- The state of the context of an external call. -/
def callExternal : ExecutionState → ExecutionState
  | .normal => .externalSafe
  | .unsafeCode => .externalUnsafe
  | _ => .externalSafe

end ExecutionState

/-- One context: its state, and when the time not yet charged to it began. -/
structure ContextFrame where
  state : ExecutionState
  startTsc : UInt64

/-- The thread-local variables. The depth never exceeds the array, whatever the code does, because
no step can build such a value. -/
structure ThreadLocals where
  threadSlot : Option ℕ
  contextStack : Fin maxContextDepth → ContextFrame
  stackDepth : ℕ
  depth_le : stackDepth ≤ maxContextDepth

namespace ThreadLocals

/-- The thread-local variables of a new thread. -/
def new : ThreadLocals where
  threadSlot := none
  contextStack _ := ⟨.normal, 0⟩
  stackDepth := 0
  depth_le := Nat.zero_le _

/-- The index of the top context. -/
def topIndex (l : ThreadLocals) (h : 0 < l.stackDepth) : Fin maxContextDepth :=
  ⟨l.stackDepth - 1, lt_of_lt_of_le (Nat.sub_one_lt_of_lt h) l.depth_le⟩

/-- The top context. -/
def top (l : ThreadLocals) (h : 0 < l.stackDepth) : ContextFrame := l.contextStack (l.topIndex h)

/-- Overwrite the top context. -/
def setTop (l : ThreadLocals) (h : 0 < l.stackDepth) (f : ContextFrame) : ThreadLocals :=
  { l with contextStack := Function.update l.contextStack (l.topIndex h) f }

/-- Put a context on top. -/
def push (l : ThreadLocals) (h : l.stackDepth < maxContextDepth) (f : ContextFrame) :
    ThreadLocals :=
  { l with
    contextStack := Function.update l.contextStack ⟨l.stackDepth, h⟩ f
    stackDepth := l.stackDepth + 1
    depth_le := h }

/-- Remove the top context. -/
def pop (l : ThreadLocals) : ThreadLocals :=
  { l with
    stackDepth := l.stackDepth - 1
    depth_le := (Nat.sub_le _ _).trans l.depth_le }

/-- Remove the top context and resume the one below: it keeps its state, and its clock restarts. -/
def resume (l : ThreadLocals) (h : 1 < l.stackDepth) (tsc : UInt64) : ThreadLocals :=
  have hpop : 0 < l.pop.stackDepth := Nat.sub_pos_of_lt h
  l.pop.setTop hpop { l.pop.top hpop with startTsc := tsc }

/-- The state of the top context, `normal` when there is none. -/
def currentState (l : ThreadLocals) : ExecutionState :=
  if h : 0 < l.stackDepth then (l.top h).state else .normal

/-- The locals of a thread that has just taken its slot: one normal context. -/
def enter (l : ThreadLocals) (slot : ℕ) (tsc : UInt64) : ThreadLocals where
  threadSlot := some slot
  contextStack := Function.update l.contextStack ⟨0, by decide⟩ ⟨.normal, tsc⟩
  stackDepth := 1
  depth_le := by decide

end ThreadLocals

/-- What the machine supplies to one call. -/
structure Inputs where
  /-- `pthread_self`. -/
  threadId : UInt64
  /-- The reading taken when the call initializes its thread. -/
  initTsc : UInt64
  /-- The reading taken for the change of context. -/
  tsc : UInt64
  /-- The reading returned to the caller. -/
  returnTsc : UInt64
  deriving DecidableEq

section Code

variable {τ : Type} [DecidableEq τ]

/-- The result of a context change: nothing, or a fixed message. -/
abbrev Outcome := Except String Unit

/-- `initialize_thread`. -/
def initializeThread (t : τ) (inp : Inputs) : ThreadM ThreadLocals (Shared τ) (Option ℕ) := do
  match (← get).threadSlot with
  | some slot => return some slot
  | none =>
    match ← allocateSlot t with
    | some slot =>
      storeField t slot fun st ↦ { st with threadId := inp.threadId }
      storeField t slot fun st ↦ { st with startTsc := inp.initTsc }
      storeField t slot fun st ↦ { st with lastKnownTsc := inp.initTsc }
      storeActive t slot
      modify fun l ↦ l.enter slot inp.initTsc
      return some slot
    | none => return none

/-- `THREAD_SLOT.with(|s| s.get()).or_else(initialize_thread)`. -/
def slotOrInitialize (t : τ) (inp : Inputs) : ThreadM ThreadLocals (Shared τ) (Option ℕ) := do
  match (← get).threadSlot with
  | some slot => return some slot
  | none => initializeThread t inp

/-- Charge the time since the context was last touched to the counter of its state. A context
whose start is unknown, or not in the past, is charged nothing. -/
def account (t : τ) (slot : ℕ) (frame : ContextFrame) (tsc : UInt64) : Program (Shared τ) Unit :=
  if frame.startTsc > 0 ∧ tsc > frame.startTsc then
    fetchAddCounter t slot frame.state.counter (tsc - frame.startTsc)
  else return ()

/-- `transition_state`. -/
def transitionState (t : τ) (inp : Inputs) (newState : ExecutionState) :
    ThreadM ThreadLocals (Shared τ) Outcome := do
  match ← slotOrInitialize t inp with
  | none => return .error "Thread not initialized"
  | some slot =>
    let l ← get
    if h : l.stackDepth = 0 ∨ l.stackDepth > maxContextDepth then
      return .error "Invalid stack depth"
    else
      have hpos : 0 < l.stackDepth := Nat.pos_of_ne_zero (not_or.mp h).1
      account t slot (l.top hpos) inp.tsc
      set (l.setTop hpos ⟨newState, inp.tsc⟩)
      return .ok ()

/-- `push_context`. -/
def pushContext (t : τ) (inp : Inputs) (newState : ExecutionState) :
    ThreadM ThreadLocals (Shared τ) Outcome := do
  match ← slotOrInitialize t inp with
  | none => return .error "Thread not initialized"
  | some slot =>
    let l ← get
    if h : l.stackDepth ≥ maxContextDepth then
      return .error "Context stack overflow"
    else
      if hpos : 0 < l.stackDepth then account t slot (l.top hpos) inp.tsc
      set (l.push (lt_of_not_ge h) ⟨newState, inp.tsc⟩)
      return .ok ()

/-- `pop_context`. -/
def popContext (t : τ) (inp : Inputs) : ThreadM ThreadLocals (Shared τ) Outcome := do
  let l ← get
  match l.threadSlot with
  | none => return .error "Thread not initialized"
  | some slot =>
    if h : l.stackDepth ≤ 1 then
      return .error "Cannot pop from empty context stack"
    else
      have hpos : 0 < l.stackDepth := Nat.lt_of_succ_lt (lt_of_not_ge h)
      account t slot (l.top hpos) inp.tsc
      set (l.resume (lt_of_not_ge h) inp.tsc)
      return .ok ()

/-- `thread_cleanup`. -/
def threadCleanup (t : τ) (inp : Inputs) : ThreadM ThreadLocals (Shared τ) Unit := do
  let l ← get
  match l.threadSlot with
  | none => return ()
  | some slot =>
    if slot < maxThreads then
      if h : 0 < l.stackDepth then account t slot (l.top h) inp.tsc
      storeField t slot fun st ↦ { st with lastKnownTsc := inp.tsc }
      storeTerminated t slot

/-! ## The C interface -/

/-- `record_program_start`. -/
def recordProgramStart (t : τ) (inp : Inputs) : ThreadM ThreadLocals (Shared τ) Unit := do
  let _ ← initializeThread t inp

/-- `cpu_cycle_start_measurement`. -/
def cpuCycleStartMeasurement (t : τ) (inp : Inputs) :
    ThreadM ThreadLocals (Shared τ) UInt64 := do
  match ← slotOrInitialize t inp with
  | none => return 0
  | some slot =>
    let newState := (← get).currentState.enterUnsafe
    match ← transitionState t inp newState with
    | .ok () => fetchAddCounter t slot .unsafeBlocks 1
    | .error _ => pure ()
    return inp.returnTsc

/-- `cpu_cycle_end_measurement`. -/
def cpuCycleEndMeasurement (t : τ) (inp : Inputs) : ThreadM ThreadLocals (Shared τ) Unit := do
  let newState := (← get).currentState.leaveUnsafe
  let _ ← transitionState t inp newState

/-- `external_call_start`. -/
def externalCallStart (t : τ) (inp : Inputs) : ThreadM ThreadLocals (Shared τ) UInt64 := do
  match ← slotOrInitialize t inp with
  | none => return 0
  | some slot =>
    let newState := (← get).currentState.callExternal
    match ← pushContext t inp newState with
    | .ok () => fetchAddCounter t slot .externalCalls 1
    | .error _ => pure ()
    return inp.returnTsc

/-- `external_call_end`. -/
def externalCallEnd (t : τ) (inp : Inputs) : ThreadM ThreadLocals (Shared τ) Unit := do
  let _ ← popContext t inp

/-- The hooks the instrumentation inserts. -/
inductive Hook where
  | startMeasurement
  | endMeasurement
  | callStart
  | callEnd
  deriving DecidableEq

/-- The code of a hook; the instrumentation passes the returned reading back to the closing hook,
which ignores it. -/
def Hook.code (t : τ) (inp : Inputs) : Hook → ThreadM ThreadLocals (Shared τ) Unit
  | .startMeasurement => do
    let _ ← cpuCycleStartMeasurement t inp
  | .endMeasurement => cpuCycleEndMeasurement t inp
  | .callStart => do
    let _ ← externalCallStart t inp
  | .callEnd => externalCallEnd t inp

end Code

end UnsafePerf.CpuCycle
