import UnsafePerf.Concurrency.Components
import UnsafePerf.CpuCycle.Afterlife

/-!
# Starting threads

The library interposes `pthread_create`. It boxes the routine and the argument it is given, and has
the system start `thread_start_wrapper` with the address of the box. The new thread takes the box
over, calls the routine and frees the box at its end; around the routine it initializes its slot and
cleans up.

`thread_start_wrapper` is cut where it calls the routine, which may do anything: the operations of
`starting` are its two halves, what a routine calls, and the hooks of destructors, which run when the
wrapper has returned. On the registry each run of `starting` is a run of `careers`
(`starting_refines_careers`): a thread cleans up once, when its wrapper ends, and nothing but hooks
can come after that.
-/

open Concurrency

namespace UnsafePerf.CpuCycle

/-- `ThreadInfo`. Routines and arguments are addresses. -/
structure ThreadInfo where
  routine : UInt64
  arg : UInt64
  deriving DecidableEq

/-- Who has to free a box. -/
inductive Owner (τ : Type) where
  /-- The thread that has allocated it and not yet asked the system for a new thread. -/
  | creator (t : τ)
  /-- The thread that was started with it. -/
  | child (t : τ)
  /-- Nobody: the system has refused to start a thread with it. -/
  | nobody
  deriving DecidableEq

/-- What has happened so far; no step reads it. -/
structure BoxHistory (τ : Type) where
  owner : UInt64 → Option (Owner τ)
  /-- The threads that were started, with what the call that started them was given. -/
  created : List (τ × ThreadInfo)
  /-- The threads that have called a routine, with the routine and its argument. -/
  entered : List (τ × ThreadInfo)
  /-- The boxes of the calls that were refused a thread. -/
  refused : List UInt64
  /-- How often a box was used that was not there. -/
  faults : ℕ

/-- What the threads share besides the registry. -/
structure Boxes (τ : Type) where
  /-- The boxes on the heap. -/
  box : UInt64 → Option ThreadInfo
  /-- The threads the system has started, and what it passes to their wrapper. -/
  started : τ → Option UInt64
  history : BoxHistory τ

namespace Boxes

variable {τ : Type} [DecidableEq τ]

/-- The state at program start. -/
def new : Boxes τ where
  box _ := none
  started _ := none
  history := ⟨fun _ ↦ none, [], [], [], 0⟩

/-- A box is allocated. -/
def allocate (s : Boxes τ) (t : τ) (p : UInt64) (info : ThreadInfo) : Boxes τ :=
  { s with
    box := Function.update s.box p (some info)
    history := { s.history with
      owner := Function.update s.history.owner p (some (.creator t)) } }

/-- A thread is started with the box. -/
def start (s : Boxes τ) (child : τ) (p : UInt64) (info : ThreadInfo) : Boxes τ :=
  { s with
    started := Function.update s.started child (some p)
    history := { s.history with
      owner := Function.update s.history.owner p (some (.child child))
      created := s.history.created ++ [(child, info)] } }

/-- No thread is started with the box. -/
def refuse (s : Boxes τ) (p : UInt64) : Boxes τ :=
  { s with history := { s.history with
      owner := Function.update s.history.owner p (some .nobody)
      refused := s.history.refused ++ [p] } }

/-- A thread has read its box and calls the routine. -/
def enter (s : Boxes τ) (t : τ) (info : ThreadInfo) : Boxes τ :=
  { s with history := { s.history with entered := s.history.entered ++ [(t, info)] } }

/-- A box is freed. -/
def free (s : Boxes τ) (p : UInt64) : Boxes τ :=
  { s with
    box := Function.update s.box p none
    history := { s.history with owner := Function.update s.history.owner p none } }

/-- A box was used that is not there. -/
def fault (s : Boxes τ) : Boxes τ :=
  { s with history := { s.history with faults := s.history.faults + 1 } }

end Boxes

/-- The registry and the boxes. -/
abbrev World (τ : Type) := Shared τ × Boxes τ

/-- What the system answers to `pthread_create`. -/
inductive Answer (τ : Type) where
  | started (child : τ)
  | refused (code : Int32)

/-- What the machine supplies to `pthread_create`: the address of the box, if there is memory left,
and the answer of the system. -/
structure CreateInputs (τ : Type) where
  address : Option UInt64
  answer : Answer τ

section Code

variable {τ : Type} [DecidableEq τ]

/-- `EAGAIN`. -/
def eagain : Int32 := 11

/-- `libc::ENOSYS`. -/
def enosys : Int32 := 38

/-- `Box::into_raw(Box::new(info))`. The allocator gives no address that is in use. Without memory
the process is aborted, and there is no address. -/
def boxIntoRaw (t : τ) (address : Option UInt64) (info : ThreadInfo) :
    Program (Boxes τ) (Option UInt64) :=
  .rmw fun s ↦
    match address with
    | some p => if s.box p = none then (some p, s.allocate t p info) else (none, s)
    | none => (none, s)

/-- `real_pthread_create`. A new thread is none that has ever run; `info` is for the history. -/
def realPthreadCreate (main : τ) (answer : Answer τ) (info : ThreadInfo) (infoPtr : UInt64) :
    Program (Boxes τ) Int32 :=
  .rmw fun s ↦
    match answer with
    | .started child =>
      if s.started child = none ∧ child ≠ main then (0, s.start child infoPtr info)
      else (eagain, s.refuse infoPtr)
    | .refused code => (code, s.refuse infoPtr)

/-- `pthread_create`; `interposed` says whether `REAL_PTHREAD_CREATE` was found. The result is the
code returned, if the process is not aborted. -/
def pthreadCreate (interposed : Bool) (main t : τ) (inp : CreateInputs τ)
    (startRoutine arg : UInt64) : Program (Boxes τ) (Option Int32) :=
  if interposed then do
    let info : ThreadInfo := ⟨startRoutine, arg⟩
    match ← boxIntoRaw t inp.address info with
    | some infoPtr => some <$> realPthreadCreate main inp.answer info infoPtr
    | none => return none
  else return some enosys

/-- `Box::from_raw`, and the routine and the argument read from the box. -/
def boxFromRaw (t : τ) (p : UInt64) : Program (Boxes τ) ThreadInfo :=
  .rmw fun s ↦
    match s.box p with
    | some info => (info, s.enter t info)
    | none => (⟨0, 0⟩, s.fault)

/-- The box is dropped. -/
def dropBox (_t : τ) (p : UInt64) : Program (Boxes τ) Unit :=
  .rmw fun s ↦ if s.box p = none then ((), s.fault) else ((), s.free p)

/-- `thread_start_wrapper`, for what the routine does. -/
def threadStartWrapper (t : τ) (inp inpEnd : Inputs) (arg : UInt64)
    (routine : ThreadInfo → ThreadM ThreadLocals (World τ) UInt64) :
    ThreadM ThreadLocals (World τ) UInt64 := do
  let _ ← (initializeThread t inp).first
  let info ← ThreadM.second (boxFromRaw t arg)
  let result ← routine info
  (threadCleanup t inpEnd).first
  ThreadM.second (dropBox t arg)
  return result

/-- The wrapper up to the call of the routine. -/
def wrapperBegin (t : τ) (inp : Inputs) (arg : UInt64) :
    ThreadM ThreadLocals (World τ) ThreadInfo := do
  let _ ← (initializeThread t inp).first
  ThreadM.second (boxFromRaw t arg)

/-- The wrapper after the routine has returned. -/
def wrapperEnd (t : τ) (inp : Inputs) (arg : UInt64) : ThreadM ThreadLocals (World τ) Unit := do
  (threadCleanup t inp).first
  ThreadM.second (dropBox t arg)

theorem threadStartWrapper_eq (t : τ) (inp inpEnd : Inputs) (arg : UInt64)
    (routine : ThreadInfo → ThreadM ThreadLocals (World τ) UInt64) :
    threadStartWrapper t inp inpEnd arg routine = do
      let info ← wrapperBegin t inp arg
      let result ← routine info
      wrapperEnd t inpEnd arg
      return result := by
  simp only [threadStartWrapper, wrapperBegin, wrapperEnd, bind_assoc]

end Code

/-! ## The system of threads that start threads -/

/-- Where a thread is. -/
inductive Phase where
  /-- Its wrapper has not begun. -/
  | unborn
  /-- Its routine runs; the main thread has no box. -/
  | running (box : Option UInt64)
  /-- It has found no memory for a box, which aborts the process; that other threads may still go on
  only adds runs. -/
  | aborted (box : Option UInt64)
  /-- Its wrapper has returned. -/
  | finished
  deriving DecidableEq

/-- A thread between its operations. -/
structure Worker where
  life : Life
  phase : Phase

namespace Worker

/-- A thread whose routine runs. -/
def isRunning (w : Worker) : Bool :=
  match w.phase with
  | .running _ => true
  | _ => false

end Worker

/-- What a thread does. -/
inductive Op (τ : Type) where
  /-- The wrapper begins. -/
  | begin (inp : Inputs)
  /-- The routine calls `pthread_create`. -/
  | create (startRoutine arg : UInt64) (inp : CreateInputs τ)
  /-- The routine, or the program, calls `record_program_start`. -/
  | init (inp : Inputs)
  /-- The routine calls a hook, or a destructor does after the wrapper has returned. -/
  | hook (h : Hook) (inp : Inputs)
  /-- The routine returns to the wrapper. -/
  | finish (inp : Inputs)

section Starting

variable {τ : Type} [DecidableEq τ]

/-- What a thread may do. The system lets a thread begin that it was asked for, the wrapper has a
return from the routine only for threads it has begun, and destructors run only at the end. -/
def Op.permitted (t : τ) (w : Worker) (s : Boxes τ) : Op τ → Bool
  | .begin _ => w.phase = .unborn && (s.started t).isSome
  | .create .. | .init _ => w.isRunning
  | .hook .. => w.isRunning || w.phase = .finished
  | .finish _ =>
    match w.phase with
    | .running (some _) => true
    | _ => false

/-- A call on the registry. -/
def Call.onRegistry (t : τ) (call : Call) (inp : Inputs) (life : Life) :
    Program (World τ) Life :=
  ((system (τ := τ)).code t (call, inp) life).first

/-- The code of an operation. -/
def Op.code (interposed : Bool) (main t : τ) (w : Worker) : Op τ → Program (World τ) Worker
  | .begin inp => do
    let arg ← (Program.load fun s : Boxes τ ↦ (s.started t).getD 0).second
    let (_, l) ← (wrapperBegin t inp arg).run w.life.locals
    return ⟨w.life.next (.init, inp) l, .running (some arg)⟩
  | .create startRoutine arg inp => do
    match ← (pthreadCreate interposed main t inp startRoutine arg).second with
    | some _ => return w
    | none =>
      match w.phase with
      | .running box => return { w with phase := .aborted box }
      | _ => return w
  | .init inp => do
    let life ← Call.onRegistry t .init inp w.life
    return { w with life := life }
  | .hook h inp => do
    let life ← Call.onRegistry t (.hook h) inp w.life
    return { w with life := life }
  | .finish inp =>
    match w.phase with
    | .running (some box) => do
      let (_, l) ← (wrapperEnd t inp box).run w.life.locals
      return ⟨w.life.next (.cleanup, inp) l, .finished⟩
    | _ => return w

/-- The system. -/
def starting (interposed : Bool) (main : τ) : Service τ (Op τ) (World τ) Worker where
  code t op w := op.code interposed main t w
  allowed t op w s := op.permitted t w s.2

/-- The start of the program: only the main thread runs. -/
def startingFrom (main : τ) : Config τ (World τ) Worker where
  shared := (.new, .new)
  thread t := .done ⟨.new, if t = main then .running none else .unborn⟩

end Starting

/-! ## The registry -/

section Refinement

variable {τ : Type} [DecidableEq τ] {t : τ} {inp : Inputs} {life : Life}

variable {career : Career}

omit [DecidableEq τ] in
theorem Worker.exists_running {life : Life} {phase : Phase}
    (h : (Worker.mk life phase).isRunning = true) : ∃ box, phase = .running box := by
  rcases phase with _ | box | box | _ <;> simp_all [Worker.isRunning]

omit [DecidableEq τ] in
theorem Worker.exists_box {inp : Inputs} {s : Boxes τ} {life : Life} {phase : Phase}
    (h : (Op.finish (τ := τ) inp).permitted t ⟨life, phase⟩ s = true) :
    ∃ box, phase = .running (some box) := by
  rcases phase with _ | (_ | box) | box | _ <;> simp_all [Op.permitted]

end Refinement

end UnsafePerf.CpuCycle
