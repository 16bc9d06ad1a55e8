import UnsafePerf.Text.Decimal
import UnsafePerf.Concurrency.Program
import Mathlib.Data.String.Basic
import Mathlib.Data.Finset.Sort

/-!
# The coverage tracker and its report

A process registers the unsafe source lines it was compiled with, notes those it executes, and
appends one report to a file when it exits. A location is the text `file:line`.

`write_output` opens the file for appending and writes the report and a `'\n'`, which are two
writes: the reports of processes that exit at the same time interleave at this grain. Errors of the
file system end a process's output and are not modelled; standard error is not modelled either.

A process's tracker is its own, so it is the thread-local state of `ThreadM`, and the processes
share the file. `reported` is history: which processes have written the text of their report.
-/

open Concurrency

namespace UnsafePerf.Coverage

/-! ## Locations -/

-- The order of the locations in a report, named so that the definitions below do not each carry the
-- proofs about it.
instance : IsTrans Text (· ≤ ·) := instIsTransLe

instance : Std.Antisymm (α := Text) (· ≤ ·) := instAntisymmLe

instance : Std.Total (α := Text) (· ≤ ·) := LE.total

/-- A file name as the instrumentation passes it: a pointer to a C string. -/
inductive FileName where
  | null
  | invalidUtf8
  | utf8 (name : Text)
  deriving DecidableEq

/-- `make_location`. -/
def makeLocation (line : ℤ) : FileName → Text
  | .null => "<unknown>".toList ++ ':' :: Text.ofInt line
  | .utf8 name => name ++ ':' :: Text.ofInt line
  | .invalidUtf8 => "<invalid>".toList ++ ':' :: Text.ofInt line

/-! ## The tracker -/

/-- The tracker of a process. -/
structure UnsafeCoverageTracker where
  registeredLines : Finset Text
  executedLines : Finset Text
  /-- Whether the report has been written. -/
  statsWritten : Bool
  runCounter : ℕ

namespace UnsafeCoverageTracker

/-- `UnsafeCoverageTracker::new`. -/
def new : UnsafeCoverageTracker := ⟨∅, ∅, false, 0⟩

/-- `register_line`. -/
def registerLine (c : UnsafeCoverageTracker) (line : ℤ) (file : FileName) :
    UnsafeCoverageTracker :=
  { c with registeredLines := insert (makeLocation line file) c.registeredLines }

/-- `track_execution`. -/
def trackExecution (c : UnsafeCoverageTracker) (line : ℤ) (file : FileName) :
    UnsafeCoverageTracker :=
  { c with executedLines := insert (makeLocation line file) c.executedLines }

/-- `reset`. -/
def reset (_c : UnsafeCoverageTracker) : UnsafeCoverageTracker := ⟨∅, ∅, false, 0⟩

/-- The coverage in percent, as `get_coverage_percentage` and `write_stats` compute it. -/
def getCoveragePercentage (c : UnsafeCoverageTracker) : ℚ :=
  if c.registeredLines.card > 0 then
    Text.toF64 (Text.toF64 (Text.toF64 c.executedLines.card / Text.toF64 c.registeredLines.card)
      * 100)
  else 0

end UnsafeCoverageTracker

/-! ## The report -/

/-- The text that `write_detailed_stats` builds. -/
def detailedStats (runNum : ℕ) (registered executed : Finset Text)
    (registeredCount executedCount : ℕ) (coverage : ℚ) (timestamp : ℕ) : Text :=
  "=== RUN_".toList ++ Text.ofNat runNum ++ " ===\n".toList
    ++ "=== REGISTERED_LINES ===\n".toList
    ++ (registered.sort (· ≤ ·)).flatMap (· ++ "\n".toList)
    ++ "\n".toList
    ++ "=== EXECUTED_LINES ===\n".toList
    ++ (executed.sort (· ≤ ·)).flatMap (· ++ "\n".toList)
    ++ "\n".toList
    ++ "=== SUMMARY ===\n".toList
    ++ "registered_count=".toList ++ Text.ofNat registeredCount ++ "\n".toList
    ++ "executed_count=".toList ++ Text.ofNat executedCount ++ "\n".toList
    ++ "coverage_percentage=".toList ++ Text.fixed2 coverage ++ "\n".toList
    ++ "run_timestamp=".toList ++ Text.ofNat timestamp ++ "\n".toList
    ++ "\n".toList

/-! ## Writing the report -/

/-- What the processes share. -/
structure Output (π : Type) where
  /-- The file, if it exists. -/
  file : Option Text
  /-- The processes that have written the text of their report. -/
  reported : Finset π

section Code

variable {π : Type} [DecidableEq π]

/-- Append to the file, which is created if need be. -/
def append (_p : π) (text : Text) : Program (Output π) Unit :=
  .store fun s ↦ { s with file := some (s.file.getD [] ++ text) }

/-- Append the text of a report to the file. -/
def appendReport (p : π) (text : Text) : Program (Output π) Unit :=
  .store fun s ↦ ⟨some (s.file.getD [] ++ text), insert p s.reported⟩

/-- `write_output`. -/
def writeOutput (p : π) (content : Text) : Program (Output π) Unit := do
  appendReport p content
  append p "\n".toList

/-- `write_detailed_stats`. -/
def writeDetailedStats (p : π) (runNum : ℕ) (registered executed : Finset Text)
    (registeredCount executedCount : ℕ) (coverage : ℚ) (timestamp : ℕ) :
    Program (Output π) Unit :=
  writeOutput p (detailedStats runNum registered executed registeredCount executedCount coverage
    timestamp)

/-- `write_stats`; the timestamp is what the clock returns. -/
def writeStats (p : π) (timestamp : ℕ) : ThreadM UnsafeCoverageTracker (Output π) Unit := do
  let c ← get
  modify ({ · with statsWritten := true })
  if c.statsWritten then return
  let runNum := c.runCounter + 1
  modify ({ · with runCounter := runNum })
  writeDetailedStats p runNum c.registeredLines c.executedLines c.registeredLines.card
    c.executedLines.card c.getCoveragePercentage timestamp

end Code

end UnsafePerf.Coverage
