import UnsafePerf.Coverage.Analyze
import UnsafePerf.Concurrency.RelyGuarantee
import Mathlib.Data.Finset.Union

/-!
# The coverage round trip

Any number of processes append their reports to one file, at any time and in any order, and the
two writes of a report interleave with those of the others. The analyzer reads the file back as the
union of the reports.

Every write is a sequence of whole lines after which the analyzer is outside the sections, so the
order of the writes does not matter: the file always consists of whole lines, and the analyzer, run
over it, has collected the locations of the processes in `reported` and is outside the sections.
-/

open Concurrency

namespace UnsafePerf.Coverage

section Contract

variable {π : Type}

/-- The registered source locations of some processes. -/
def registeredSources (trackers : π → UnsafeCoverageTracker) (ps : Finset π) : Finset Text :=
  sources (ps.biUnion fun p ↦ (trackers p).registeredLines)

/-- The executed source locations of some processes. -/
def executedSources (trackers : π → UnsafeCoverageTracker) (ps : Finset π) : Finset Text :=
  sources (ps.biUnion fun p ↦ (trackers p).executedLines)

/-- The invariant: the file consists of whole lines, and read line by line it gives the locations
of the processes that have reported. -/
structure Inv (trackers : π → UnsafeCoverageTracker) (s : Output π) : Prop where
  lines : ∃ ls : List Text, s.file.getD [] = Text.unlines ls ∧ (∀ l ∈ ls, l.OneLine) ∧
    Scan.new.lines (ls.map (· ++ ['\n']))
      = ⟨none, registeredSources trackers s.reported, executedSources trackers s.reported⟩

/-- The contract of the file of reports. -/
def contract (trackers : π → UnsafeCoverageTracker) : Contract π (Output π) where
  inv := Inv trackers
  rely p s s' := p ∈ s'.reported ↔ p ∈ s.reported
  rely_refl _ _ := .rfl
  rely_trans h h' := h'.trans h

variable {trackers : π → UnsafeCoverageTracker} {s : Output π} {p : π}

theorem Inv.new : Inv trackers ⟨none, ∅⟩ where
  lines := ⟨[], rfl, by simp, by simp [registeredSources, executedSources, sources, Scan.new]⟩

/-- The analyzer has collected what the processes in `reported` have written. -/
theorem Inv.scanFile (hi : Inv trackers s) :
    scanFile s.file
      = ⟨none, registeredSources trackers s.reported, executedSources trackers s.reported⟩ := by
  obtain ⟨ls, hfile, hls, hscan⟩ := hi.lines
  rw [← hscan, ← Text.readLines_unlines hls, ← hfile]
  cases s.file <;> rfl

/-- Appending a blank line. -/
theorem Inv.append_newline (hi : Inv trackers s) :
    Inv trackers { s with file := some (s.file.getD [] ++ "\n".toList) } := by
  obtain ⟨ls, hfile, hls, hscan⟩ := hi.lines
  refine ⟨ls ++ [[]], ?_, ?_, ?_⟩
  · rw [Option.getD_some, hfile, Text.unlines_append]
    rfl
  · intro l hl
    rcases List.mem_append.mp hl with h | h
    · exact hls l h
    · rw [List.mem_singleton.mp h]
      decide
  · rw [List.map_append, Scan.lines_append, hscan]
    rfl

variable [DecidableEq π]

/-- One more process adds its own source locations. -/
theorem sources_biUnion_insert (locations : π → Finset Text) (ps : Finset π) :
    sources ((insert p ps).biUnion locations)
      = sources (ps.biUnion locations) ∪ sources (locations p) := by
  rw [Finset.biUnion_insert, sources, Finset.filter_union, Finset.union_comm]
  rfl

/-- Appending the text of a report. -/
theorem Inv.append_report (hi : Inv trackers s)
    (hregistered : ∀ l ∈ (trackers p).registeredLines, Location l)
    (hexecuted : ∀ l ∈ (trackers p).executedLines, Location l)
    (runNum registeredCount executedCount timestamp : ℕ) (coverage : ℚ) :
    Inv trackers ⟨some (s.file.getD [] ++ detailedStats runNum (trackers p).registeredLines
      (trackers p).executedLines registeredCount executedCount coverage timestamp),
      insert p s.reported⟩ := by
  obtain ⟨ls, hfile, hls, hscan⟩ := hi.lines
  refine ⟨ls ++ reportLines runNum (trackers p).registeredLines (trackers p).executedLines
    registeredCount executedCount coverage timestamp, ?_, ?_, ?_⟩
  · rw [Option.getD_some, hfile, detailedStats_eq_unlines, Text.unlines_append]
  · intro l hl
    rcases List.mem_append.mp hl with h | h
    · exact hls l h
    · exact oneLine_reportLines _ _ _ _ _ hregistered hexecuted l h
  · rw [List.map_append, Scan.lines_append, hscan,
      Scan.lines_reportLines _ _ _ _ _ hregistered hexecuted]
    simp only [registeredSources, executedSources, sources_biUnion_insert]
    rfl

end Contract

/-! ## Processes -/

section Processes

variable {π : Type} {trackers : π → UnsafeCoverageTracker} {s : Output π} {p : π}

/-- Every process before its exit, with the locations it has gathered, and no file. -/
def start (trackers : π → UnsafeCoverageTracker) : Config π (Output π) UnsafeCoverageTracker where
  shared := ⟨none, ∅⟩
  thread p := .done (trackers p)

/-- A process that is not writing: it has its locations, and has reported if it says so. -/
structure Settled (trackers : π → UnsafeCoverageTracker) (p : π) (c : UnsafeCoverageTracker)
    (s : Output π) : Prop where
  registered : c.registeredLines = (trackers p).registeredLines
  executed : c.executedLines = (trackers p).executedLines
  reported : c.statsWritten = true → p ∈ s.reported

theorem settled_start (hfresh : ∀ p, (trackers p).statsWritten = false) (p : π) :
    (contract trackers).wp p ((start trackers).thread p) (Settled trackers p)
      (start trackers).shared :=
  Contract.wp_done fun _ _ _ ↦ ⟨rfl, rfl, fun h ↦ absurd (h.symm.trans (hfresh p)) (by simp)⟩

variable [DecidableEq π]

/-- The processes as a service: each writes its statistics, at its exit or before. -/
def system : Service π ℕ (Output π) UnsafeCoverageTracker where
  code p timestamp c := Prod.snd <$> (writeStats p timestamp).run c
  allowed _ _ _ _ := true

/-- Whoever writes its statistics may do so. -/
theorem wp_writeStats (hclean : ∀ p, (∀ l ∈ (trackers p).registeredLines, Location l) ∧
      ∀ l ∈ (trackers p).executedLines, Location l)
    (p : π) (timestamp : ℕ) (c : UnsafeCoverageTracker) (s : Output π)
    (_ : (contract trackers).inv s) (hs : Settled trackers p c s)
    (_ : system.allowed p timestamp c s = true) :
    (contract trackers).wp p (system.code p timestamp c) (Settled trackers p) s := by
  refine Contract.wp_map ?_
  cases hwritten : c.statsWritten with
  | true =>
    have hrun : (writeStats p timestamp).run c = .done ((), { c with statsWritten := true }) := by
      simp [writeStats, hwritten]
    rw [hrun]
    exact Contract.wp_done fun s₁ hr₁ _ ↦
      ⟨hs.registered, hs.executed, fun _ ↦ hr₁.mpr (hs.reported hwritten)⟩
  | false =>
    have hrun : (writeStats p timestamp).run c = (do
        appendReport p (detailedStats (c.runCounter + 1) c.registeredLines c.executedLines
          c.registeredLines.card c.executedLines.card c.getCoveragePercentage timestamp)
        append p "\n".toList
        return ((), { c with statsWritten := true, runCounter := c.runCounter + 1 })) := by
      simp [writeStats, hwritten, writeDetailedStats, writeOutput]
    rw [hrun, hs.registered, hs.executed]
    refine Contract.wp_seq (Q := fun _ s ↦ p ∈ s.reported) ?_ fun _ s₁ _ h₁ ↦
      Contract.wp_seq (Q := fun _ s ↦ p ∈ s.reported) ?_ fun _ s₂ _ h₂ ↦
        Contract.wp_done fun _ hr _ ↦ ⟨rfl, rfl, fun _ ↦ hr.mpr h₂⟩
    · refine Contract.wp_store fun s₁ _ hi₁ ↦ ⟨⟨?_, fun u hu ↦ ?_⟩, fun _ hr _ ↦ ?_⟩
      · exact Inv.append_report hi₁ (hclean p).1 (hclean p).2 _ _ _ _ _
      · exact Finset.mem_insert.trans (or_iff_right hu)
      · exact hr.mpr (Finset.mem_insert_self _ _)
    · exact Contract.wp_store fun s₂ hr₂ hi₂ ↦
        ⟨⟨Inv.append_newline hi₂, fun _ _ ↦ .rfl⟩, fun _ hr _ ↦ hr.mpr (hr₂.mpr h₁)⟩

/-! ## Runs -/

/-- **Round trip.** When every process has written its statistics, the analyzer reads back exactly
the source locations of all processes. -/
theorem coverage_round_trip [Fintype π] (trackers : π → UnsafeCoverageTracker)
    (hfresh : ∀ p, (trackers p).statsWritten = false)
    (hlocations : ∀ p, ∀ l ∈ (trackers p).registeredLines ∪ (trackers p).executedLines,
      ∃ (line : ℤ) (file : FileName), file.Clean ∧ l = makeLocation line file)
    (ms : List (Move π ℕ))
    (hexited : ∀ p, ∃ c, (system.run (start trackers) ms).Idle p c ∧ c.statsWritten = true) :
    let scan := scanFile (system.run (start trackers) ms).shared.file
    scan.allRegistered = (Finset.univ.biUnion fun p ↦ (trackers p).registeredLines).filter
        (·.StartsWith "src/".toList) ∧
      scan.allExecuted = (Finset.univ.biUnion fun p ↦ (trackers p).executedLines).filter
        (·.StartsWith "src/".toList) := by
  intro scan
  have hclean : ∀ p, (∀ l ∈ (trackers p).registeredLines, Location l) ∧
      ∀ l ∈ (trackers p).executedLines, Location l := by
    refine fun p ↦ ⟨fun l hl ↦ ?_, fun l hl ↦ ?_⟩
    · obtain ⟨line, file, hfile, rfl⟩ := hlocations p l (Finset.mem_union_left _ hl)
      exact location_makeLocation hfile line
    · obtain ⟨line, file, hfile, rfl⟩ := hlocations p l (Finset.mem_union_right _ hl)
      exact location_makeLocation hfile line
  have hinv : Inv trackers (system.run (start trackers) ms).shared :=
    (Contract.run_sound (C := contract trackers) system (Settled trackers) (wp_writeStats hclean)
      (start trackers) .new (settled_start hfresh) ms).1
  have hall : (system.run (start trackers) ms).shared.reported = Finset.univ := by
    refine Finset.eq_univ_of_forall fun p ↦ ?_
    obtain ⟨c, hidle, hwritten⟩ := hexited p
    have hsettled := Contract.run_idle (C := contract trackers) system (Settled trackers)
      (wp_writeStats hclean) (start trackers) .new (settled_start hfresh) ms hidle
    exact hsettled.reported hwritten
  have hscan := hinv.scanFile
  rw [hall] at hscan
  exact ⟨congrArg Scan.allRegistered hscan, congrArg Scan.allExecuted hscan⟩

/-- Two processes that have executed different lines of one file. -/
def twoTrackers : Bool → UnsafeCoverageTracker
  | false => ((UnsafeCoverageTracker.new.registerLine 3 (.utf8 "src/lib.rs".toList)).registerLine 7
      (.utf8 "src/lib.rs".toList)).trackExecution 3 (.utf8 "src/lib.rs".toList)
  | true => ((UnsafeCoverageTracker.new.registerLine 3 (.utf8 "src/lib.rs".toList)).registerLine 9
      .null).trackExecution 9 .null

/-- They exit at the same time. -/
def simultaneousExits : List (Move Bool ℕ) :=
  [.call false 100, .call true 100, .step true, .step false, .step true, .step false]

/-- The round trip of their reports. -/
theorem coverage_round_trip_simultaneousExits :
    let scan := scanFile (system.run (start twoTrackers) simultaneousExits).shared.file
    scan.allRegistered = (Finset.univ.biUnion fun p ↦ (twoTrackers p).registeredLines).filter
        (·.StartsWith "src/".toList) ∧
      scan.allExecuted = (Finset.univ.biUnion fun p ↦ (twoTrackers p).executedLines).filter
        (·.StartsWith "src/".toList) := by
  have hsrc : (FileName.utf8 "src/lib.rs".toList).Clean := ⟨by decide, by decide, by decide⟩
  have hexited : ∀ p, (((system.run (start twoTrackers) simultaneousExits).thread p).returned.any
      (·.statsWritten)) = true := by decide +kernel
  refine coverage_round_trip twoTrackers (by decide) ?_ simultaneousExits fun p ↦ ?_
  · intro p l hl
    cases p with
    | false =>
      simp only [twoTrackers, UnsafeCoverageTracker.trackExecution,
        UnsafeCoverageTracker.registerLine, UnsafeCoverageTracker.new, Finset.mem_union,
        Finset.mem_insert, Finset.notMem_empty, or_false] at hl
      rcases hl with (rfl | rfl) | rfl
      exacts [⟨7, _, hsrc, rfl⟩, ⟨3, _, hsrc, rfl⟩, ⟨3, _, hsrc, rfl⟩]
    | true =>
      simp only [twoTrackers, UnsafeCoverageTracker.trackExecution,
        UnsafeCoverageTracker.registerLine, UnsafeCoverageTracker.new, Finset.mem_union,
        Finset.mem_insert, Finset.notMem_empty, or_false] at hl
      rcases hl with (rfl | rfl) | rfl
      exacts [⟨9, .null, trivial, rfl⟩, ⟨3, _, hsrc, rfl⟩, ⟨9, .null, trivial, rfl⟩]
  · obtain ⟨c, hc, hwritten⟩ := (Option.any_eq_true _ _).mp (hexited p)
    exact ⟨c, Program.returned_eq_some.mp hc, hwritten⟩

end Processes

end UnsafePerf.Coverage
