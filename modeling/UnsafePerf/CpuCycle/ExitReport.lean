import UnsafePerf.CpuCycle.Totals
import UnsafePerf.CpuCycle.Conservation
import UnsafePerf.Text.Decimal

/-!
# The report at the end of the program

The main thread never passes through `thread_cleanup`, and `dump_stats` adds up what the slots
have been charged. Time is charged at the next change of context, so the time after the last one is
in no slot when the program ends.

`programRun` is a program with one thread, from its start to its report. Its registry has one slot
in use, which holds the outcome of the thread's calls, and the conservation of cycles says how much
that is: the time from the start to the last accepted change of context.
-/

open Concurrency

namespace UnsafePerf.CpuCycle

/-! ## The report -/

/-- The figures of the report. -/
structure CycleReport where
  totalCycles : UInt64
  unsafeCycles : UInt64
  externalCycles : UInt64
  internalCycles : UInt64

namespace CycleReport

/-- The figures from the totals of the slots. -/
def ofTotals (totalCycles : UInt64) (totals : Counter → UInt64) : CycleReport where
  totalCycles := totalCycles
  unsafeCycles := totals .unsafeCycles
  externalCycles := totals .externalSafeCycles + totals .externalUnsafeCycles
  internalCycles := totals .normalCycles + totals .unsafeCycles

/-- The share of unsafe code in the internal cycles, in percent. -/
def unsafePercentage (r : CycleReport) : ℚ :=
  if r.internalCycles > 0 then
    Text.toF64 (Text.toF64 (Text.toF64 r.unsafeCycles.toNat / Text.toF64 r.internalCycles.toNat)
      * 100)
  else 0

/-- What the text begins with. -/
def heading : Text := "\n===== CPU Cycle Statistics =====\n".toList ++ "Total cycles: ".toList

/-- The text that `dump_stats` writes. -/
def output (r : CycleReport) : Text :=
  heading ++ (Text.ofNat r.totalCycles.toNat ++ '\n' ::
    ("Unsafe cycles: ".toList ++ Text.ofNat r.unsafeCycles.toNat ++ "\n".toList
    ++ "External cycles: ".toList ++ Text.ofNat r.externalCycles.toNat ++ "\n".toList
    ++ "Internal cycles: ".toList ++ Text.ofNat r.internalCycles.toNat ++ "\n".toList
    ++ "Unsafe percentage: ".toList ++ Text.fixed2 r.unsafePercentage ++ "\n".toList))

end CycleReport

/-- The text reports this number of total cycles. -/
def ReportsTotal (text : Text) (n : ℕ) : Prop :=
  CycleReport.heading ++ (Text.ofNat n ++ ['\n']) <+: text

instance (text : Text) (n : ℕ) : Decidable (ReportsTotal text n) :=
  inferInstanceAs (Decidable (_ <+: _))

theorem CycleReport.reportsTotal_iff {r : CycleReport} {n : ℕ} :
    ReportsTotal r.output n ↔ n = r.totalCycles.toNat :=
  (List.prefix_append_right_inj _).trans Text.ofNat_line_prefix_iff

section Code

variable {τ : Type}

/-- `dump_stats`. -/
def dumpStats : Program (Shared τ) Text := do
  let (totalCycles, totals) ← calculateTotalStats
  return (CycleReport.ofTotals totalCycles totals).output

/-- `stats_written.compare_exchange(false, true)`. -/
def compareExchangeWritten : Program (Shared τ) Bool :=
  .rmw fun s ↦ if s.statsWritten = false then (true, { s with statsWritten := true }) else (false, s)

/-- `print_cpu_cycle_stats`, and with it `final_cleanup`: the text it writes, if any. -/
def printCpuCycleStats : Program (Shared τ) (Option Text) := do
  if ← compareExchangeWritten then
    let text ← dumpStats
    return some text
  else return none

variable [DecidableEq τ]

/-- A sequence of hooks. -/
def runHooks (t : τ) : List (Hook × Inputs) → ThreadM ThreadLocals (Shared τ) Unit
  | [] => return ()
  | (h, inp) :: hooks => do
    h.code t inp
    runHooks t hooks

/-- A program with one thread. -/
def programRun (t : τ) (first : Inputs) (hooks : List (Hook × Inputs)) :
    ThreadM ThreadLocals (Shared τ) (Option Text) := do
  recordProgramStart t first
  runHooks t hooks
  let text ← (printCpuCycleStats : Program (Shared τ) (Option Text))
  return text

/-- The calls of the thread. -/
def programCalls (first : Inputs) (hooks : List (Hook × Inputs)) : List (Call × Inputs) :=
  (.init, first) :: hooks.map fun e ↦ (.hook e.1, e.2)

end Code

/-! ## One slot -/

/-- A registry with one slot in use, and no report written. -/
def ThreadRegistry.single (st : ThreadStats) : ThreadRegistry where
  threads := Function.update (fun _ ↦ .new) 0 st
  nextSlot := 1
  statsWritten := false

section Exec

variable {τ : Type} {t : τ} {inp : Inputs} {l : ThreadLocals} {st : ThreadStats} {s : Shared τ}

theorem threads_single (hs : s.toThreadRegistry = .single st) : s.threads 0 = st := by
  simp [hs, ThreadRegistry.single]

/-- Writing the slot of the thread. -/
theorem setStats_single (hs : s.toThreadRegistry = .single st) (st' : ThreadStats) :
    (s.setStats 0 st').toThreadRegistry = .single st' := by
  simp [Shared.setStats, hs, ThreadRegistry.single]

theorem storeField_exec (f : ThreadStats → ThreadStats) (hs : s.toThreadRegistry = .single st) :
    ((storeField t 0 f).exec s).2.toThreadRegistry = .single (f st) := by
  rw [storeField, Program.exec_store, threads_single hs]
  exact setStats_single hs _

theorem storeActive_exec (hs : s.toThreadRegistry = .single st) :
    ((storeActive t 0).exec s).2.toThreadRegistry = .single { st with state := .active } := by
  have hnoted : (s.noteActive 0).toThreadRegistry = .single st := hs
  rw [storeActive, Program.exec_store, threads_single hs]
  exact setStats_single hnoted _

/-- With one slot in use the totals are its counters. -/
theorem calculateTotalStats_exec_single (hst : s.threads 0 = st) (hnext : s.nextSlot = 1)
    (hstate : st.state ≠ .uninitialized) (hlt : st.cycles < 2 ^ 64) :
    (calculateTotalStats.exec s).1.1.toNat = st.cycles := by
  have hslots : min s.nextSlot maxThreads = 1 := by
    rw [hnext]
    rfl
  have htotals : ∀ c, (calculateTotalStats.exec s).1.2 c = st.counters c := by
    intro c
    refine UInt64.toNat_inj.mp ?_
    rw [calculateTotalStats_exec c, hslots, Finset.sum_range_one, hst,
      Nat.mod_eq_of_lt (UInt64.toNat_lt _)]
    intro k hk
    obtain rfl : k = 0 := by omega
    rwa [hst]
  have hsum : (calculateTotalStats.exec s).1.1
      = st.counters .normalCycles + st.counters .unsafeCycles + st.counters .externalSafeCycles
        + st.counters .externalUnsafeCycles := by
    rw [← htotals, ← htotals, ← htotals, ← htotals]
    simp only [calculateTotalStats, Program.exec_bind, Program.pure_eq, Program.exec_done]
  rw [ThreadStats.cycles] at hlt ⊢
  rw [hsum, UInt64.toNat_add, UInt64.toNat_add, UInt64.toNat_add]
  omega

theorem printCpuCycleStats_exec (hs : s.toThreadRegistry = .single st)
    (hstate : st.state ≠ .uninitialized) (hlt : st.cycles < 2 ^ 64) :
    ∃ r : CycleReport, (printCpuCycleStats.exec s).1 = some r.output ∧
      r.totalCycles.toNat = st.cycles := by
  have hwritten : s.statsWritten = false := by
    rw [hs]
    rfl
  have hnext : s.nextSlot = 1 := by
    rw [hs]
    rfl
  refine ⟨.ofTotals (calculateTotalStats.exec { s with statsWritten := true }).1.1
    (calculateTotalStats.exec { s with statsWritten := true }).1.2, ?_, ?_⟩
  · simp [printCpuCycleStats, compareExchangeWritten, dumpStats, hwritten]
  · have hst : s.threads 0 = st := threads_single hs
    exact calculateTotalStats_exec_single hst hnext hstate hlt

variable [DecidableEq τ]

theorem fetchAddCounter_exec (c : Counter) (d : UInt64) (hs : s.toThreadRegistry = .single st) :
    ((fetchAddCounter t 0 c d).exec s).2.toThreadRegistry = .single (st.add c d) := by
  have hnoted : (s.noteAccounted t c d).toThreadRegistry = .single st := hs
  rw [← threads_single hs]
  exact setStats_single hnoted _

theorem account_exec (frame : ContextFrame) (tsc : UInt64)
    (hs : s.toThreadRegistry = .single st) :
    ((account t 0 frame tsc).exec s).2.toThreadRegistry = .single (st.charge frame tsc) := by
  rw [account, ThreadStats.charge]
  split
  · exact fetchAddCounter_exec _ _ hs
  · exact hs

/-- The accesses of a hook have its effect on the slot. -/
theorem accesses_exec (h : Hook) (hs : s.toThreadRegistry = .single st) (hpos : 0 < l.stackDepth) :
    ((h.accesses t 0 inp l).exec s).2.toThreadRegistry = .single (h.effect inp (l, st)).2 := by
  cases h with
  | startMeasurement =>
    simp only [Hook.accesses, Hook.effect, dif_pos hpos, Program.exec_bind]
    exact fetchAddCounter_exec _ _ (account_exec _ _ hs)
  | endMeasurement =>
    simp only [Hook.accesses, Hook.effect, dif_pos hpos]
    exact account_exec _ _ hs
  | callStart =>
    by_cases hlt : l.stackDepth < maxContextDepth
    · simp only [Hook.accesses, Hook.effect, dif_pos hpos, dif_pos hlt, if_pos hlt,
        Program.exec_bind]
      exact fetchAddCounter_exec _ _ (account_exec _ _ hs)
    · simp only [Hook.accesses, Hook.effect, dif_neg hlt, if_neg hlt]
      exact hs
  | callEnd =>
    by_cases hgt : 1 < l.stackDepth
    · simp only [Hook.accesses, Hook.effect, dif_pos hgt]
      exact account_exec _ _ hs
    · simp only [Hook.accesses, Hook.effect, dif_neg hgt]
      exact hs

/-- A hook has its effect on the locals and on the slot. -/
theorem hook_exec (t : τ) (h : Hook) (inp : Inputs) (hs : s.toThreadRegistry = .single st)
    (hslot : l.threadSlot = some 0) (hpos : 0 < l.stackDepth) :
    (((h.code t inp).run l).exec s).1.2 = (h.effect inp (l, st)).1 ∧
      (((h.code t inp).run l).exec s).2.toThreadRegistry = .single (h.effect inp (l, st)).2 := by
  rw [hook_run h hslot hpos, Program.exec_bind, Program.exec_done, h.effect_locals .new st]
  exact ⟨rfl, accesses_exec h hs hpos⟩

theorem runHooks_exec (hooks : List (Hook × Inputs)) (hs : s.toThreadRegistry = .single st)
    (hslot : l.threadSlot = some 0) (hpos : 0 < l.stackDepth) :
    (((runHooks t hooks).run l).exec s).2.toThreadRegistry
      = .single (hooks.foldl (fun p e ↦ e.1.effect e.2 p) (l, st)).2 := by
  induction hooks generalizing l st s with
  | nil => exact hs
  | cons e hooks ih =>
    obtain ⟨h, inp⟩ := e
    obtain ⟨hlocals, hregistry⟩ := hook_exec t h inp hs hslot hpos
    have hslot' : (h.effect inp (l, st)).1.threadSlot = some 0 := h.effect_threadSlot.trans hslot
    rw [runHooks, ThreadM.run_bind, Program.exec_bind, hlocals, List.foldl_cons]
    exact ih hregistry hslot' (h.effect_depth_pos hpos)

/-- The first thread takes slot `0`. -/
theorem recordProgramStart_exec (t : τ) (inp : Inputs) :
    (((recordProgramStart t inp).run .new).exec Shared.new).1.2
        = ThreadLocals.new.enter 0 inp.initTsc ∧
      (((recordProgramStart t inp).run .new).exec Shared.new).2.toThreadRegistry
        = .single (.started inp) := by
  have hfresh : (allocateSlot t).exec Shared.new
      = (some 0, ({ Shared.new with nextSlot := 1 } : Shared τ).grant t 0) := by
    simp [allocateSlot, loadNextSlot, reuseSlot, fetchAddNextSlot, Shared.new, maxThreads]
  have hzero : (({ Shared.new with nextSlot := 1 } : Shared τ).grant t 0).toThreadRegistry
      = .single .new := by
    simp [Shared.grant, Shared.new, ThreadRegistry.single]
  simp only [recordProgramStart, initializeThread, ThreadM.run_bind, ThreadM.run_get,
    Program.done_bind, ThreadM.run_lift, bind_assoc, Program.exec_bind, hfresh,
    ThreadM.run_modify, ThreadM.run_pure, Program.exec_done, ThreadLocals.new]
  exact ⟨trivial, storeActive_exec (storeField_exec _ (storeField_exec _ (storeField_exec _ hzero)))⟩

/-- The hooks after the start leave the outcome of the calls in the slot. -/
theorem programCalls_outcome (first : Inputs) (hooks : List (Hook × Inputs)) :
    outcome 0 (programCalls first hooks) = hooks.foldl (fun p e ↦ e.1.effect e.2 p)
      (ThreadLocals.new.enter 0 first.initTsc, .started first) := by
  rw [programCalls, outcome, List.foldl_map]
  rfl

theorem foldl_effect_state (hooks : List (Hook × Inputs)) (p : ThreadLocals × ThreadStats) :
    (hooks.foldl (fun p e ↦ e.1.effect e.2 p) p).2.state = p.2.state := by
  induction hooks generalizing p with
  | nil => rfl
  | cons e hooks ih => exact (ih _).trans e.1.effect_state

theorem foldl_effect_startTsc (hooks : List (Hook × Inputs)) (p : ThreadLocals × ThreadStats) :
    (hooks.foldl (fun p e ↦ e.1.effect e.2 p) p).2.startTsc = p.2.startTsc := by
  induction hooks generalizing p with
  | nil => rfl
  | cons e hooks ih => exact (ih _).trans e.1.effect_startTsc

/-- The report says how long the thread had run at the last accepted change of context. -/
theorem programRun_exec (t : τ) {first : Inputs} {hooks : List (Hook × Inputs)}
    (hpos : ∀ r ∈ readings (programCalls first hooks), 0 < r)
    (hmono : (readings (programCalls first hooks)).Pairwise (· ≤ ·)) :
    ∃ r : CycleReport, (((programRun t first hooks).run .new).exec .new).1.1 = some r.output ∧
      r.totalCycles.toNat + first.initTsc.toNat = (ledger (programCalls first hooks)).2.toNat := by
  have hkept : Kept (outcome 0 (programCalls first hooks)) (ledger (programCalls first hooks)) :=
    kept_outcome (List.cons_ne_nil _ _) hpos hmono
  rw [programCalls_outcome] at hkept
  obtain ⟨hlocals, hstarted⟩ := recordProgramStart_exec t first
  have hhooks := runHooks_exec (t := t) (l := ThreadLocals.new.enter 0 first.initTsc) hooks hstarted
    rfl Nat.one_pos
  have hstate := foldl_effect_state hooks (ThreadLocals.new.enter 0 first.initTsc, .started first)
  have hstart := foldl_effect_startTsc hooks
    (ThreadLocals.new.enter 0 first.initTsc, .started first)
  generalize hooks.foldl (fun p e ↦ e.1.effect e.2 p)
    (ThreadLocals.new.enter 0 first.initTsc, ThreadStats.started first) = p
    at hkept hhooks hstate hstart
  have hsum : p.2.cycles + first.initTsc.toNat = (ledger (programCalls first hooks)).2.toNat := by
    rw [← hkept.sum, hstart]
    rfl
  have hlt := (ledger (programCalls first hooks)).2.toNat_lt
  obtain ⟨r, hr, htotal⟩ := printCpuCycleStats_exec hhooks (by simp [hstate, ThreadStats.started])
    (by omega)
  refine ⟨r, ?_, by omega⟩
  simp only [programRun, ThreadM.run_bind, ThreadM.run_lift, Program.exec_bind, Program.exec_done,
    hlocals, hr]

end Exec

/-! ## Runs -/

/-- Where a program with one thread reaches its report at `d`, the report says the time since its
start exactly if no time has passed since the last accepted change of context. -/
theorem total_cycles_iff {τ : Type} [DecidableEq τ] (t : τ) {first : Inputs}
    {hooks : List (Hook × Inputs)} {d : UInt64}
    (hpos : ∀ r ∈ readings (programCalls first hooks), 0 < r)
    (hmono : (readings (programCalls first hooks) ++ [d]).Pairwise (· ≤ ·)) :
    ∃ text, (((programRun t first hooks).run .new).exec .new).1.1 = some text ∧
      (ReportsTotal text (d.toNat - first.initTsc.toNat) ↔
        (ledger (programCalls first hooks)).2 = d) := by
  obtain ⟨hmono', -, hlast⟩ := List.pairwise_append.mp hmono
  obtain ⟨r, hr, htotal⟩ := programRun_exec t hpos hmono'
  have hle := UInt64.le_iff_toNat_le.mp
    (hlast _ (ledger_mem (List.cons_ne_nil _ _)) d List.mem_cons_self)
  refine ⟨r.output, hr, ?_⟩
  rw [CycleReport.reportsTotal_iff, ← UInt64.toNat_inj]
  constructor
  · intro h
    omega
  · intro h
    omega

/-- The main thread enters an unsafe region and ends inside it. -/
def openRegion : List (Hook × Inputs) := [(.startMeasurement, ⟨1, 10, 20, 21⟩)]

theorem openRegion_readings :
    (∀ r ∈ readings (programCalls ⟨1, 10, 10, 10⟩ openRegion), 0 < r) ∧
      (readings (programCalls ⟨1, 10, 10, 10⟩ openRegion) ++ [100]).Pairwise (· ≤ ·) := by
  decide

/-- The region is not in the report. -/
theorem total_cycles_not_exact :
    ∃ (first : Inputs) (hooks : List (Hook × Inputs)) (d : UInt64),
      (∀ r ∈ readings (programCalls first hooks), 0 < r) ∧
      (readings (programCalls first hooks) ++ [d]).Pairwise (· ≤ ·) ∧
      ∃ text, (((programRun () first hooks).run .new).exec .new).1.1 = some text ∧
        ¬ReportsTotal text (d.toNat - first.initTsc.toNat) := by
  obtain ⟨hpos, hmono⟩ := openRegion_readings
  obtain ⟨r, hr, htotal⟩ := programRun_exec () hpos (List.pairwise_append.mp hmono).1
  refine ⟨⟨1, 10, 10, 10⟩, openRegion, 100, hpos, hmono, r.output, hr, fun h ↦ ?_⟩
  have hlast : (ledger (programCalls ⟨1, 10, 10, 10⟩ openRegion)).2.toNat = 20 := by decide
  have hreported := CycleReport.reportsTotal_iff.mp h
  rw [hlast] at htotal
  simp at htotal hreported
  omega

theorem total_cycles_iff_openRegion :
    ∃ text, (((programRun () ⟨1, 10, 10, 10⟩ openRegion).run .new).exec .new).1.1 = some text ∧
      (ReportsTotal text ((100 : UInt64).toNat - (10 : UInt64).toNat) ↔
        (ledger (programCalls ⟨1, 10, 10, 10⟩ openRegion)).2 = 100) :=
  total_cycles_iff () openRegion_readings.1 openRegion_readings.2

end UnsafePerf.CpuCycle
