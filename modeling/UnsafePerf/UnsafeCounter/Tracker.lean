import UnsafePerf.Concurrency.Program
import UnsafePerf.Text.Decimal
import UnsafePerf.UnsafeCounter.Bitset

/-!
# The counter of unsafe code

The tracker is one static structure of fixed-size arrays and counters. The module constructor
installs the metadata of the functions the compiler has seen; every function entry and every basic
block then updates the tracker without a lock, and the module destructor writes a report.

## Representation

Every access is one atomic step. Arrays are functions on all of `ℕ`, and an access whose index is
not below the length of its array, which would panic, sets `fault`; so does reading a metadata entry
nobody has written, which would be undefined. That neither happens is a theorem, not part of the
representation. The eight instruction counters are one function on `InstCounter`.

The function identifier that `record_block` receives and ignores is left out.
-/

open Concurrency

namespace UnsafePerf.UnsafeCounter

/-- The number of functions that can be tracked. -/
def maxFunctions : ℕ := 65536

/-- The number of words of the bitset. -/
def bitsetWords : ℕ := (maxFunctions + 63) / 64

/-- What the compiler says about a function. -/
structure FunctionMetadata where
  id : UInt32
  hasUnsafeInst : UInt8
  hasUnsafeRegions : UInt8
  deriving DecidableEq

/-- Either flag is set. -/
def FunctionMetadata.isUnsafe (m : FunctionMetadata) : Bool :=
  m.hasUnsafeInst != 0 || m.hasUnsafeRegions != 0

/-- The table the compiler emits; its length is a 32-bit number. -/
structure MetadataTable where
  entries : List FunctionMetadata
  length_lt : entries.length < 2 ^ 32

/-- The instruction counters, in the order of the report. -/
inductive InstCounter where
  | totalInstructions
  | totalUnsafeInstructions
  | unsafeLoads
  | unsafeStores
  | unsafeCalls
  | unsafeCasts
  | unsafeGeps
  | unsafeOthers
  deriving DecidableEq

/-- The tracker. -/
structure UnsafeTracker where
  /-- The metadata; `none` has not been written. -/
  metadata : ℕ → Option FunctionMetadata
  metadataCount : UInt32
  functionCalls : ℕ → UInt64
  functionsSeen : ℕ → UInt64
  instructions : InstCounter → UInt64
  statsWritten : Bool
  metadataInitialized : Bool

/-- `UnsafeTracker::new`. -/
def UnsafeTracker.new : UnsafeTracker where
  metadata _ := none
  metadataCount := 0
  functionCalls _ := 0
  functionsSeen _ := 0
  instructions _ := 0
  statsWritten := false
  metadataInitialized := false

/-- The tracker, and what has happened to it. -/
structure Shared extends UnsafeTracker where
  /-- The texts handed to `write_output`. -/
  outputs : List Text
  /-- Whether an index was out of range, or metadata was read that nobody had written. -/
  fault : Bool

namespace Shared

/-- At the start of the program. -/
def new : Shared := ⟨.new, [], false⟩

/-- Check an index against the length of its array. -/
def check (s : Shared) (index length : ℕ) : Shared :=
  { s with fault := s.fault || decide (length ≤ index) }

/-- `function_calls[index].fetch_add(1)`. -/
def addCall (index : ℕ) (s : Shared) : Shared :=
  { s.check index maxFunctions with
    functionCalls := Function.update s.functionCalls index (s.functionCalls index + 1) }

/-- `functions_seen.set(index)`. -/
def setSeen (index : ℕ) (s : Shared) : Shared :=
  { s.check (Bitset.wordIdx index) bitsetWords with
    functionsSeen := Bitset.insert s.functionsSeen index }

/-- `counter.fetch_add(d)`. -/
def addInst (c : InstCounter) (d : UInt64) (s : Shared) : Shared :=
  { s with instructions := Function.update s.instructions c (s.instructions c + d) }

end Shared

/-! ## Installing the metadata -/

/-- The loop that writes the entries from an index on. -/
def writeMetadata : ℕ → List FunctionMetadata → Program Shared Unit
  | _, [] => return ()
  | i, entry :: entries => do
    .store fun s ↦ { s.check i maxFunctions with
      metadata := Function.update s.metadata i (some entry) }
    writeMetadata (i + 1) entries

/-- `init_metadata`. -/
def initMetadata (table : MetadataTable) : Program Shared Unit := do
  let initialized ← .rmw fun s ↦ (s.metadataInitialized, { s with metadataInitialized := true })
  if initialized then return
  let count := table.entries.length
  if count > maxFunctions then return
  writeMetadata 0 table.entries
  .store fun s ↦ { s with metadataCount := .ofNat count }

/-! ## Events -/

/-- `record_function`. -/
def recordFunction (funcId : UInt32) : Program Shared Unit := do
  if funcId.toNat ≥ maxFunctions then return
  .store (Shared.addCall funcId.toNat)
  .store (Shared.setSeen funcId.toNat)

/-- What the compiler says about a basic block. -/
structure Block where
  total : UInt32
  unsafeTotal : UInt32
  unsafeLoad : UInt16
  unsafeStore : UInt16
  unsafeCall : UInt16
  unsafeCastInst : UInt16
  unsafeGep : UInt16
  unsafeOther : UInt16
  deriving DecidableEq

/-- A category counter is only touched when there is something to add. -/
def addCategory (c : InstCounter) (d : UInt16) : Program Shared Unit :=
  if d > 0 then .store (Shared.addInst c d.toUInt64) else return ()

/-- `record_block`. -/
def recordBlock (b : Block) : Program Shared Unit := do
  .store (Shared.addInst .totalInstructions b.total.toUInt64)
  if b.unsafeTotal = 0 then return
  .store (Shared.addInst .totalUnsafeInstructions b.unsafeTotal.toUInt64)
  addCategory .unsafeLoads b.unsafeLoad
  addCategory .unsafeStores b.unsafeStore
  addCategory .unsafeCalls b.unsafeCall
  addCategory .unsafeCasts b.unsafeCastInst
  addCategory .unsafeGeps b.unsafeGep
  addCategory .unsafeOthers b.unsafeOther

/-! ## The report -/

/-- The figures about functions. -/
structure FunctionTotals where
  uniqueFunctions : UInt32
  uniqueUnsafeFunctions : UInt32
  totalFunctionCalls : UInt64
  unsafeFunctionCalls : UInt64
  deriving DecidableEq

namespace FunctionTotals

/-- Before the loop. -/
def zero : FunctionTotals := ⟨0, 0, 0, 0⟩

/-- The body of the loop for a function that has been seen. -/
def count (totals : FunctionTotals) (isUnsafe : Bool) (calls : UInt64) : FunctionTotals where
  uniqueFunctions := totals.uniqueFunctions + 1
  uniqueUnsafeFunctions := totals.uniqueUnsafeFunctions + if isUnsafe then 1 else 0
  totalFunctionCalls := totals.totalFunctionCalls + calls
  unsafeFunctionCalls := totals.unsafeFunctionCalls + if isUnsafe then calls else 0

end FunctionTotals

/-- The figures of a report. -/
structure CounterReport where
  instructions : InstCounter → UInt64
  functions : FunctionTotals

/-- The text of a report. -/
def CounterReport.output (r : CounterReport) : Text :=
  let line (label : String) (value : ℕ) : Text := label.toList ++ Text.ofNat value ++ "\n".toList
  line "Total instructions: " (r.instructions .totalInstructions).toNat ++
  line "Unsafe instructions: " (r.instructions .totalUnsafeInstructions).toNat ++
  line "Unsafe loads: " (r.instructions .unsafeLoads).toNat ++
  line "Unsafe stores: " (r.instructions .unsafeStores).toNat ++
  line "Unsafe calls: " (r.instructions .unsafeCalls).toNat ++
  line "Unsafe casts: " (r.instructions .unsafeCasts).toNat ++
  line "Unsafe GEPs: " (r.instructions .unsafeGeps).toNat ++
  line "Unsafe others: " (r.instructions .unsafeOthers).toNat ++
  line "Unique functions: " r.functions.uniqueFunctions.toNat ++
  line "Unique unsafe functions: " r.functions.uniqueUnsafeFunctions.toNat ++
  line "Total function calls: " r.functions.totalFunctionCalls.toNat ++
  line "Unsafe function calls: " r.functions.unsafeFunctionCalls.toNat

/-- `functions_seen.is_set(index)`. -/
def isSeen (index : ℕ) : Program Shared Bool :=
  .rmw fun s ↦ (Bitset.contains s.functionsSeen index,
    s.check (Bitset.wordIdx index) bitsetWords)

/-- `metadata[index].assume_init()`. -/
def loadMetadata (index : ℕ) : Program Shared FunctionMetadata :=
  .rmw fun s ↦
    match s.metadata index with
    | some entry => (entry, s.check index maxFunctions)
    | none => (⟨0, 0, 0⟩, { s with fault := true })

/-- `function_calls[index].load`. -/
def loadCalls (index : ℕ) : Program Shared UInt64 :=
  .rmw fun s ↦ (s.functionCalls index, s.check index maxFunctions)

/-- The loop over the functions. -/
def countFunctions : List ℕ → FunctionTotals → Program Shared FunctionTotals
  | [], totals => return totals
  | i :: is, totals => do
    let seen ← isSeen i
    if seen then
      let entry ← loadMetadata i
      let calls ← loadCalls i
      countFunctions is (totals.count entry.isUnsafe calls)
    else countFunctions is totals

/-- The loads of the instruction counters, one after the other. -/
def loadInstructions : List InstCounter → Program Shared (InstCounter → UInt64)
  | [] => return fun _ ↦ 0
  | c :: cs => do
    let value ← .load fun s ↦ s.instructions c
    let rest ← loadInstructions cs
    return Function.update rest c value

/-- The instruction counters in the order in which they are loaded. -/
def instCounters : List InstCounter :=
  [.totalInstructions, .totalUnsafeInstructions, .unsafeLoads, .unsafeStores, .unsafeCalls,
    .unsafeCasts, .unsafeGeps, .unsafeOthers]

/-- `dump_stats`. -/
def dumpStats : Program Shared Unit := do
  let written ← .rmw fun s ↦ (s.statsWritten, { s with statsWritten := true })
  if written then return
  let initialized ← .load fun s ↦ s.metadataInitialized
  if !initialized then return
  let metadataCount ← .load fun s ↦ s.metadataCount.toNat
  if metadataCount = 0 then return
  let instructions ← loadInstructions instCounters
  let functions ← countFunctions (List.range metadataCount) .zero
  let report : CounterReport := ⟨instructions, functions⟩
  .store fun s ↦ { s with outputs := s.outputs ++ [report.output] }

end UnsafePerf.UnsafeCounter
