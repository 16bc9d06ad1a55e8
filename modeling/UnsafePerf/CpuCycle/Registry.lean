import UnsafePerf.Concurrency.Program
import Mathlib.Data.Finset.Card

/-!
# The thread registry

The registry of the cycle counter is an array of `maxThreads` slots of per-thread statistics and
the number of slots ever taken, `nextSlot`. A starting thread first looks for a slot whose owner
has terminated and claims it by compare-and-exchange; when there is none it takes a fresh slot by
incrementing `nextSlot`, and takes the increment back when the array is full.

## Representation

Every access to the registry is one atomic step. Counters are 64-bit and wrap, as `fetch_add`
does. `nextSlot` is a natural number: it exceeds `maxThreads` by the number of threads between
their increment and their decrement, so a wrap would need more live threads than addresses.

The six counters of a slot are one function on `Counter`, whose constructors are the field names.
The slot array is a function on all of `ℕ`; that every slot handed out is a legal index is a
theorem about the allocation, not part of the representation.

## History

`History` records what happened, for the statements: no step reads it. `holds` is set by the step
that claims a slot, before `allocateSlot` returns it, and cleared by the step that marks the slot
terminated.
-/

open Concurrency

namespace UnsafePerf.CpuCycle

/-- The length of the slot array. -/
def maxThreads : ℕ := 4096

/-- The life of a slot. -/
inductive ThreadState where
  | uninitialized
  | active
  | terminated
  deriving DecidableEq

/-- The counters of a slot. -/
inductive Counter where
  | normalCycles
  | unsafeCycles
  | externalSafeCycles
  | externalUnsafeCycles
  | unsafeBlocks
  | externalCalls
  deriving DecidableEq

/-- One slot of the registry. -/
structure ThreadStats where
  threadId : UInt64
  state : ThreadState
  startTsc : UInt64
  lastKnownTsc : UInt64
  counters : Counter → UInt64

namespace ThreadStats

/-- A slot nobody has used. -/
def new : ThreadStats := ⟨0, .uninitialized, 0, 0, fun _ ↦ 0⟩

/-- `counter.fetch_add(d)`. -/
def add (st : ThreadStats) (c : Counter) (d : UInt64) : ThreadStats :=
  { st with counters := Function.update st.counters c (st.counters c + d) }

/-- `counter.store(0)`. -/
def clear (st : ThreadStats) (c : Counter) : ThreadStats :=
  { st with counters := Function.update st.counters c 0 }

theorem add_counters_self (st : ThreadStats) (c : Counter) (d : UInt64) :
    (st.add c d).counters c = st.counters c + d := Function.update_self ..

theorem add_counters_of_ne (st : ThreadStats) {c c' : Counter} (d : UInt64) (h : c' ≠ c) :
    (st.add c d).counters c' = st.counters c' := Function.update_of_ne h ..

theorem clear_counters_self (st : ThreadStats) (c : Counter) : (st.clear c).counters c = 0 :=
  Function.update_self ..

theorem clear_counters_of_ne (st : ThreadStats) {c c' : Counter} (h : c' ≠ c) :
    (st.clear c).counters c' = st.counters c' := Function.update_of_ne h ..

end ThreadStats

/-- The registry as the program declares it. -/
structure ThreadRegistry where
  threads : ℕ → ThreadStats
  nextSlot : ℕ
  statsWritten : Bool

/-- What has happened so far. -/
structure History (τ : Type) where
  /-- The slot a thread has claimed and not yet marked terminated. -/
  holds : τ → Option ℕ
  /-- The threads that have incremented `nextSlot` past the array and not yet taken it back. -/
  overshoot : Finset τ
  /-- Every slot ever handed out, with the thread that got it. -/
  granted : List (τ × ℕ)
  /-- The last thread each slot was handed to. -/
  owner : ℕ → Option τ
  /-- The counters of each slot at the step that made it active. -/
  activated : List (ℕ × (Counter → UInt64))
  /-- How much each thread has added to each counter. -/
  accounted : τ → Counter → ℕ
  /-- What the statistics resets have overwritten: the slot, the counter, and the value. -/
  discarded : List (ℕ × Counter × UInt64)

/-- The shared state: the registry, and the history of the run. -/
structure Shared (τ : Type) extends ThreadRegistry where
  history : History τ

namespace Shared

variable {τ : Type} [DecidableEq τ]

/-- The state at program start. -/
def new : Shared τ where
  threads _ := .new
  nextSlot := 0
  statsWritten := false
  history := ⟨fun _ ↦ none, ∅, [], fun _ ↦ none, [], fun _ _ ↦ 0, []⟩

/-- Replace the contents of one slot. -/
def setStats (s : Shared τ) (slot : ℕ) (st : ThreadStats) : Shared τ :=
  { s with threads := Function.update s.threads slot st }

/-- Record that the thread was given the slot. -/
def grant (s : Shared τ) (t : τ) (slot : ℕ) : Shared τ :=
  { s with history := { s.history with
      holds := Function.update s.history.holds t (some slot)
      granted := s.history.granted ++ [(t, slot)]
      owner := Function.update s.history.owner slot (some t) } }

/-- Record that the slot became active. -/
def noteActive (s : Shared τ) (slot : ℕ) : Shared τ :=
  { s with history := { s.history with
      activated := s.history.activated ++ [(slot, (s.threads slot).counters)] } }

/-- Record that the thread has given up its slot. -/
def release (s : Shared τ) (t : τ) : Shared τ :=
  { s with history := { s.history with holds := Function.update s.history.holds t none } }

/-- Record an amount added to a counter. -/
def noteAccounted (s : Shared τ) (t : τ) (c : Counter) (d : UInt64) : Shared τ :=
  { s with history := { s.history with
      accounted := Function.update s.history.accounted t
        (Function.update (s.history.accounted t) c (s.history.accounted t c + d.toNat)) } }

/-- Record a counter value overwritten by a reset. -/
def noteDiscarded (s : Shared τ) (slot : ℕ) (c : Counter) : Shared τ :=
  { s with history := { s.history with
      discarded := s.history.discarded ++ [(slot, c, (s.threads slot).counters c)] } }

end Shared

/-! ## The atomic steps

A step that writes names the thread that takes it. -/

section Steps

variable {τ : Type} [DecidableEq τ]

/-- `next_slot.load`. -/
def loadNextSlot : Program (Shared τ) ℕ := .load fun s ↦ s.nextSlot

/-- `threads[slot].state.load`. -/
def loadState (slot : ℕ) : Program (Shared τ) ThreadState := .load fun s ↦ (s.threads slot).state

/-- A store to a field of the slot other than a counter. -/
def storeField (_t : τ) (slot : ℕ) (f : ThreadStats → ThreadStats) : Program (Shared τ) Unit :=
  .store fun s ↦ s.setStats slot (f (s.threads slot))

/-- `threads[slot].state.compare_exchange(Terminated, Uninitialized)`; success claims the slot. -/
def compareExchangeState (t : τ) (slot : ℕ) : Program (Shared τ) Bool :=
  .rmw fun s ↦
    if (s.threads slot).state = .terminated then
      (true, (s.setStats slot { s.threads slot with state := .uninitialized }).grant t slot)
    else (false, s)

/-- `counter.store(0)`. -/
def resetCounter (_t : τ) (slot : ℕ) (c : Counter) : Program (Shared τ) Unit :=
  .store fun s ↦ (s.noteDiscarded slot c).setStats slot ((s.threads slot).clear c)

/-- `counter.fetch_add(d)`. -/
def fetchAddCounter (t : τ) (slot : ℕ) (c : Counter) (d : UInt64) : Program (Shared τ) Unit :=
  .store fun s ↦ (s.noteAccounted t c d).setStats slot ((s.threads slot).add c d)

/-- `next_slot.fetch_add(1)`; an answer inside the array claims the slot. -/
def fetchAddNextSlot (t : τ) : Program (Shared τ) ℕ :=
  .rmw fun s ↦
    let s' := { s with nextSlot := s.nextSlot + 1 }
    (s.nextSlot,
      if s.nextSlot < maxThreads then s'.grant t s.nextSlot
      else { s' with history := { s.history with overshoot := insert t s.history.overshoot } })

/-- `next_slot.fetch_sub(1)`. -/
def fetchSubNextSlot (t : τ) : Program (Shared τ) Unit :=
  .store fun s ↦ { s with
    nextSlot := s.nextSlot - 1
    history := { s.history with overshoot := s.history.overshoot.erase t } }

/-- `threads[slot].state.store(Active)`. -/
def storeActive (_t : τ) (slot : ℕ) : Program (Shared τ) Unit :=
  .store fun s ↦ (s.noteActive slot).setStats slot { s.threads slot with state := .active }

/-- `threads[slot].state.store(Terminated)`, by which the thread gives up the slot. -/
def storeTerminated (t : τ) (slot : ℕ) : Program (Shared τ) Unit :=
  .store fun s ↦ (s.release t).setStats slot { s.threads slot with state := .terminated }

end Steps

/-! ## Allocation -/

section Allocation

variable {τ : Type} [DecidableEq τ]

/-- The nine stores that reset a reclaimed slot. -/
def resetStatistics (t : τ) (slot : ℕ) : Program (Shared τ) Unit := do
  storeField t slot fun st ↦ { st with threadId := 0 }
  storeField t slot fun st ↦ { st with startTsc := 0 }
  storeField t slot fun st ↦ { st with lastKnownTsc := 0 }
  resetCounter t slot .normalCycles
  resetCounter t slot .unsafeCycles
  resetCounter t slot .externalSafeCycles
  resetCounter t slot .externalUnsafeCycles
  resetCounter t slot .unsafeBlocks
  resetCounter t slot .externalCalls

/-- The scan for a terminated slot. -/
def reuseSlot (t : τ) : List ℕ → Program (Shared τ) (Option ℕ)
  | [] => return none
  | slot :: slots => do
    let currentState ← loadState slot
    if currentState = .terminated then
      let swapped ← compareExchangeState t slot
      if swapped then
        resetStatistics t slot
        return some slot
      else reuseSlot t slots
    else reuseSlot t slots

/-- `ThreadRegistry::allocate_slot`. -/
def allocateSlot (t : τ) : Program (Shared τ) (Option ℕ) := do
  let currentSlots ← loadNextSlot
  match ← reuseSlot t (List.range (min currentSlots maxThreads)) with
  | some slot => return some slot
  | none =>
    let slot ← fetchAddNextSlot t
    if slot < maxThreads then return some slot
    else
      fetchSubNextSlot t
      return none

end Allocation

end UnsafePerf.CpuCycle
