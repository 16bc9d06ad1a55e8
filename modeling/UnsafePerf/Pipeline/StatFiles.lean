import UnsafePerf.Concurrency.Debts
import UnsafePerf.CpuCycle.ExitReport
import UnsafePerf.Heap.Report
import UnsafePerf.Text.SelfDelimiting
import UnsafePerf.UnsafeCounter.Tracker
import Mathlib.Data.List.Count
import Mathlib.Data.List.Perm.Basic

/-!
# What the stat files tell

`write_output` appends a report and a line end to the stat file of its runtime. A command of a crate may
run many instrumented processes, one after the other or several at once, that append to one file.
`writeln!` writes the content and the line end with two writes, so the line end of one report may come
after another report. Scripts are to read the figures from this file.

They can. In every interleaving the contents of the file determine which reports have been written, in
which order, and every figure of each of them; and when no write is in progress these are just the
reports whose writing has begun. A report of the cycle counter ends with a percentage, rounded to two
decimals, from which nothing could be read back, but the lines before it determine it.

A write to a file that is open for appending takes place at its end, whole and in one step.
-/

open Concurrency Text

namespace UnsafePerf.StatFiles

/-! ## Writers of one file -/

section Writers

variable {ρ : Type}

/-- A stat file. Which reports have been begun and what has been appended are recorded beside its
contents. -/
structure StatFile (ρ : Type) where
  text : Text
  begun : List ρ
  pieces : List (Option ρ)

namespace StatFile

/-- The file before the first report. -/
def empty : StatFile ρ := ⟨[], [], []⟩

/-- The reports in the file. -/
def reports (f : StatFile ρ) : List ρ := f.pieces.filterMap id

/-- One `write`. -/
def write (output : ρ → Text) (p : Option ρ) (f : StatFile ρ) : StatFile ρ :=
  { f with
    text := f.text ++ piece output p
    pieces := f.pieces ++ [p] }

/-- The file is opened for a report. -/
def begin (r : ρ) (f : StatFile ρ) : StatFile ρ := { f with begun := f.begun ++ [r] }

end StatFile

/-- A call of `write_output` with a report. -/
structure Writing (ρ : Type) where
  report : ρ
  /-- Whether the file can be opened. -/
  opened : Bool

/-- `write_output`. -/
def writeOutput (output : ρ → Text) (w : Writing ρ) : Program (StatFile ρ) Unit :=
  if w.opened then do
    .store (·.begin w.report)
    -- `writeln!` writes the content and then the line end
    .store (·.write output (some w.report))
    .store (·.write output none)
  else return

variable {τ : Type} [DecidableEq τ] {output : ρ → Text}

/-- Any number of processes and threads that write reports. -/
def writers (output : ρ → Text) : Service τ (Writing ρ) (StatFile ρ) Unit where
  code _ w _ := writeOutput output w
  allowed _ _ _ _ := true

/-- Before the first report. -/
def start : Config τ (StatFile ρ) Unit := .start .empty ()

/-! ### The contents are the pieces -/

/-- The contents of the file are what has been appended. -/
def Recorded (output : ρ → Text) (f : StatFile ρ) : Prop := f.text = f.pieces.flatMap (piece output)

theorem Recorded.write {f : StatFile ρ} (h : Recorded output f) (p : Option ρ) :
    Recorded output (f.write output p) := by
  change f.text ++ piece output p = (f.pieces ++ [p]).flatMap (piece output)
  rw [List.flatMap_append, List.flatMap_singleton, ← h]

theorem recorded_run (ms : List (Move τ (Writing ρ))) :
    Recorded output ((writers output).run start ms).shared := by
  induction ms using List.reverseRecOn with
  | nil => rfl
  | append_singleton ms m ih =>
    let Keeps (f f' : StatFile ρ) : Prop := Recorded output f → Recorded output f'
    have hcode : ∀ (t : τ) w l, ((writers output).code t w l).Steps (fun _ _ ↦ True) Keeps := by
      intro t w l
      change (writeOutput output w).Steps _ _
      rw [writeOutput]
      split
      · exact .bind (Program.steps_rmw fun _ _ h ↦ h) fun _ ↦
          .bind (Program.steps_rmw fun _ _ h ↦ h.write _) fun _ ↦
          Program.steps_rmw fun _ _ h ↦ h.write _
      · exact Program.steps_done ()
    have hidle : ∀ t : τ, ((start : Config τ (StatFile ρ) Unit).thread t).Steps (fun _ _ ↦ True)
        Keeps := fun _ ↦ trivial
    exact (writers output).run_steps (fun _ h ↦ h) hcode hidle (fun _ _ _ _ ↦ trivial)
      List.prefix_rfl ih

/-- The contents of the file determine the reports in it. -/
theorem reports_eq_of_text_eq (h : Tells output id) (hmarked : Marked output) {τ' : Type}
    [DecidableEq τ'] {ms : List (Move τ (Writing ρ))} {ms' : List (Move τ' (Writing ρ))}
    (htext : ((writers output).run start ms).shared.text
      = ((writers output).run start ms').shared.text) :
    ((writers output).run start ms).shared.reports
      = ((writers output).run start ms').shared.reports := by
  rw [recorded_run ms, recorded_run ms'] at htext
  rw [StatFile.reports, StatFile.reports, pieces_injective h hmarked htext]

/-! ### No report is lost -/

open scoped Classical in
/-- How many reports have been begun and not written. -/
noncomputable def outstanding (f : StatFile ρ) (r : ρ) : ℤ := f.begun.count r - f.reports.count r

open scoped Classical in
/-- One report. -/
noncomputable def one (r r' : ρ) : ℤ := if r = r' then 1 else 0

open scoped Classical in
theorem count_append_one (rs : List ρ) (r r' : ρ) :
    ((rs ++ [r]).count r' : ℤ) = rs.count r' + one r r' := by
  rw [List.count_append, List.count_singleton, one]
  by_cases h : r = r'
  · simp [h]
  · simp [h]

theorem outstanding_begin (r : ρ) (f : StatFile ρ) :
    outstanding (f.begin r) = outstanding f + one r := by
  have hreports : (f.begin r).reports = f.reports := rfl
  have hbegun : (f.begin r).begun = f.begun ++ [r] := rfl
  funext r'
  rw [Pi.add_apply, outstanding, outstanding, hreports, hbegun, count_append_one]
  omega

theorem outstanding_write (r : ρ) (f : StatFile ρ) :
    outstanding (f.write output (some r)) = outstanding f + -one r := by
  have hreports : (f.write output (some r)).reports = f.reports ++ [r] := by
    change (f.pieces ++ [some r]).filterMap id = _
    rw [List.filterMap_append]
    rfl
  have hbegun : (f.write output (some r)).begun = f.begun := rfl
  funext r'
  rw [Pi.add_apply, Pi.neg_apply, outstanding, outstanding, hreports, hbegun, count_append_one]
  omega

theorem outstanding_newline (f : StatFile ρ) :
    outstanding (f.write output none) = outstanding f + 0 := by
  have hreports : (f.write output none).reports = f.reports := by
    change (f.pieces ++ [none]).filterMap id = _
    rw [List.filterMap_append]
    exact List.append_nil _
  funext r
  rw [add_zero, outstanding, outstanding, hreports]
  rfl

/-- A call that returns has written what it has begun. -/
theorem owing_writeOutput (w : Writing ρ) (f : StatFile ρ) :
    (writeOutput output w).Owing (fun _ ↦ True) (fun _ _ ↦ True) outstanding (fun _ n _ ↦ n = 0) 0
      f := by
  have hstep : ∀ {n d : ρ → ℤ} {g : StatFile ρ → StatFile ρ} {f : StatFile ρ},
      (∀ f, outstanding (g f) = outstanding f + d) →
        (Program.store g).Owing (fun _ ↦ True) (fun _ _ ↦ True) outstanding
          (fun _ m _ ↦ m = n + d) n f := fun hadd ↦
    (Program.owing_step (K := fun _ ↦ True) (fun _ _ ↦ trivial) (fun _ _ ↦ trivial)
      (fun f _ _ ↦ hadd f) trivial).mono fun _ _ _ h ↦ h.1
  rw [writeOutput]
  split
  · refine Program.Owing.bind (fun _ ↦ trivial) (hstep (outstanding_begin w.report)) ?_
    rintro _ _ f₁ rfl
    refine Program.Owing.bind (fun _ ↦ trivial) (hstep (outstanding_write w.report)) ?_
    rintro _ _ f₂ rfl
    refine (hstep outstanding_newline).mono ?_
    rintro _ _ f₃ rfl
    rw [zero_add, add_neg_cancel, add_zero]
  · exact Program.owing_done fun _ _ _ ↦ rfl

/-- When no write is in progress, the reports in the file are those that have been begun. -/
theorem reports_perm_begun [Fintype τ] (ms : List (Move τ (Writing ρ)))
    (hidle : ∀ t, ∃ l, ((writers output).run start ms).Idle t l) :
    ((writers output).run start ms).shared.reports.Perm
      ((writers output).run start ms).shared.begun := by
  classical
  have hstart : ∀ t : τ, ((start : Config τ (StatFile ρ) Unit).thread t).Owing (fun _ ↦ True)
      (fun _ _ ↦ True) outstanding (fun _ n _ ↦ n = 0) 0 (start : Config τ (StatFile ρ) Unit).shared :=
    fun _ ↦ Program.owing_done fun _ _ _ ↦ rfl
  have hzero : outstanding ((writers output).run start ms).shared = 0 := by
    refine (Service.balance_of_idle (writers output) ?_ ?_ hstart ?_ ?_ ?_ hidle).trans ?_
    · exact fun _ _ ↦ trivial
    · intros
      trivial
    · exact fun _ ↦ trivial
    · exact fun _ _ _ _ ↦ trivial
    · exact fun _ _ w _ _ _ ↦ owing_writeOutput w _
    · rfl
  rw [List.perm_iff_count]
  intro r
  exact Int.ofNat_inj.mp (sub_eq_zero.mp (congrFun hzero r)).symm

end Writers

/-! ## The cycle counter -/

section CycleCounter

open CpuCycle

/-- The lines of a report of the cycle counter that are numbers. -/
def cycleLines : List (Text × (CycleReport → ℕ)) :=
  [(CycleReport.heading, (·.totalCycles.toNat)),
    ("Unsafe cycles: ".toList, (·.unsafeCycles.toNat)),
    ("External cycles: ".toList, (·.externalCycles.toNat)),
    ("Internal cycles: ".toList, (·.internalCycles.toNat))]

/-- The figures of a report determine it. -/
theorem cycleReport_ext {r r' : CycleReport}
    (h : cycleLines.map (·.2 r) = cycleLines.map (·.2 r')) : r = r' := by
  simp only [cycleLines, List.map_cons, List.cons.injEq, UInt64.toNat_inj] at h
  obtain ⟨htotal, hwithin, hexternal, hinternal, -⟩ := h
  rcases r with ⟨_, _, _, _⟩
  rcases r' with ⟨_, _, _, _⟩
  simp only [CycleReport.mk.injEq]
  exact ⟨htotal, hwithin, hexternal, hinternal⟩

theorem cycleReport_output_eq (r : CycleReport) : r.output = labelledLines cycleLines r
    ++ ("Unsafe percentage: ".toList ++ (fixed2 r.unsafePercentage ++ "\n".toList)) := by
  simp only [CycleReport.output, labelledLines, cycleLines, List.flatMap_cons, List.flatMap_nil,
    List.append_nil, List.append_assoc]
  rfl

theorem tells_cycleReport : Tells CycleReport.output id := by
  have hfigures : Tells (labelledLines cycleLines) (id : CycleReport → CycleReport) :=
    (tells_labelledLines cycleLines).of_eq fun _ _ h ↦ cycleReport_ext h
  -- the percentage is computed from figures that have been told
  have hwhole := hfigures.append_of_factor
    (e := fun r ↦ "Unsafe percentage: ".toList ++ (fixed2 r.unsafePercentage ++ "\n".toList))
    fun r r' h ↦ by rw [show r = r' from h]
  intro r r' l l' heq
  rw [cycleReport_output_eq, cycleReport_output_eq] at heq
  exact hwhole _ _ _ _ heq

theorem marked_cycleReport : Marked CycleReport.output := .inr fun r ↦ by
  have hheading : CycleReport.heading = '\n' :: '=' :: CycleReport.heading.drop 2 := rfl
  rw [CycleReport.output, hheading]
  exact ⟨'=', _, by decide, rfl⟩

end CycleCounter

/-! ## The unsafe counter -/

section Counter

open UnsafeCounter

/-- The lines of a report of the unsafe counter. -/
def counterLines : List (Text × (CounterReport → ℕ)) :=
  [("Total instructions: ".toList, (·.instructions .totalInstructions |>.toNat)),
    ("Unsafe instructions: ".toList, (·.instructions .totalUnsafeInstructions |>.toNat)),
    ("Unsafe loads: ".toList, (·.instructions .unsafeLoads |>.toNat)),
    ("Unsafe stores: ".toList, (·.instructions .unsafeStores |>.toNat)),
    ("Unsafe calls: ".toList, (·.instructions .unsafeCalls |>.toNat)),
    ("Unsafe casts: ".toList, (·.instructions .unsafeCasts |>.toNat)),
    ("Unsafe GEPs: ".toList, (·.instructions .unsafeGeps |>.toNat)),
    ("Unsafe others: ".toList, (·.instructions .unsafeOthers |>.toNat)),
    ("Unique functions: ".toList, (·.functions.uniqueFunctions.toNat)),
    ("Unique unsafe functions: ".toList, (·.functions.uniqueUnsafeFunctions.toNat)),
    ("Total function calls: ".toList, (·.functions.totalFunctionCalls.toNat)),
    ("Unsafe function calls: ".toList, (·.functions.unsafeFunctionCalls.toNat))]

/-- The figures of a report determine it. -/
theorem counterReport_ext {r r' : CounterReport}
    (h : counterLines.map (·.2 r) = counterLines.map (·.2 r')) : r = r' := by
  simp only [counterLines, List.map_cons, List.cons.injEq, UInt64.toNat_inj, UInt32.toNat_inj] at h
  obtain ⟨h₁, h₂, h₃, h₄, h₅, h₆, h₇, h₈, huniq, hwithin, hcalls, hshare, -⟩ := h
  have hinst : r.instructions = r'.instructions := by
    funext c
    rcases c with _ | _ | _ | _ | _ | _ | _ | _
    exacts [h₁, h₂, h₃, h₄, h₅, h₆, h₇, h₈]
  rcases r with ⟨_, ⟨_, _, _, _⟩⟩
  rcases r' with ⟨_, ⟨_, _, _, _⟩⟩
  simp only [CounterReport.mk.injEq, FunctionTotals.mk.injEq]
  exact ⟨hinst, huniq, hwithin, hcalls, hshare⟩

theorem counterReport_output_eq (r : CounterReport) : r.output = labelledLines counterLines r := by
  unfold CounterReport.output
  dsimp only
  simp only [labelledLines, counterLines, List.flatMap_cons, List.flatMap_nil, List.append_nil,
    List.append_assoc]

theorem tells_counterReport : Tells CounterReport.output id := by
  intro r r' l l' heq
  rw [counterReport_output_eq, counterReport_output_eq] at heq
  exact (tells_labelledLines counterLines).of_eq (fun _ _ h ↦ counterReport_ext h) _ _ _ _ heq

theorem marked_counterReport : Marked CounterReport.output := .inl fun r ↦ by
  have hlabel : "Total instructions: ".toList = 'T' :: "otal instructions: ".toList := rfl
  rw [counterReport_output_eq, labelledLines, counterLines, List.flatMap_cons, hlabel]
  exact ⟨'T', _, by decide, rfl⟩

end Counter

/-! ## The heap tracker -/

section Tracker

open Heap

/-- The lines of a report of the heap tracker that are numbers, after the first. -/
def heapLines : List (Text × (Heap.Report → ℕ)) :=
  [("Total heap allocations: ".toList, (·.counters .totalAlloc)),
    ("Total heap re-allocations: ".toList, (·.counters .totalRealloc)),
    ("Total heap deallocations: ".toList, (·.counters .totalDealloc)),
    ("Unsafe heap memory: ".toList, (·.counters .unsafeMem)),
    ("Unsafe heap objects: ".toList, (·.counters .totalUnsafeObjs)),
    ("Unsafe memory instructions: ".toList, (·.counters .totalMemInsts)),
    ("Unsafe load: ".toList, (·.counters .unsafeLoad)),
    ("Unsafe store: ".toList, (·.counters .unsafeStore))]

/-- The first line, up to the unit. -/
def usageHeading : Text :=
  "\n===== Heap Usage Statistics =====\n".toList ++ "Total heap usage: ".toList

theorem tells_histogram (label : Text) (f : Heap.Report → List ℕ) :
    Tells (fun r ↦ label ++ (histogramText (f r) ++ "\n".toList)) f := by
  have hhead : ∀ c ∈ "; ".toList.head?, c.isDigit = false := by
    intro c hc
    obtain rfl : ';' = c := Option.some.inj hc
    rfl
  have hnewline : '\n' ∉ "; ".toList := by decide
  have hsep : "; ".toList ≠ [] := by decide
  exact Tells.prepend label (tells_terminated (fun r ↦ notMem_joinNumbers rfl hnewline (f r))
    fun _ _ h ↦ joinNumbers_injective hsep hhead h)

/-- The figures of a report determine it. -/
theorem heapReport_ext {r r' : Heap.Report}
    (husage : r.counters .totalUsage = r'.counters .totalUsage)
    (h : heapLines.map (·.2 r) = heapLines.map (·.2 r')) (hsize : r.sizeHistogram = r'.sizeHistogram)
    (htouched : r.unsafeSizeHistogram = r'.unsafeSizeHistogram) : r = r' := by
  simp only [heapLines, List.map_cons, List.cons.injEq] at h
  obtain ⟨halloc, hrealloc, hdealloc, hmem, hobjs, hinsts, hload, hstore, -⟩ := h
  have hcounters : r.counters = r'.counters := by
    funext c
    rcases c with _ | _ | _ | _ | _ | _ | _ | _ | _
    exacts [husage, halloc, hrealloc, hdealloc, hobjs, hmem, hinsts, hload, hstore]
  rcases r with ⟨_, _, _⟩
  rcases r' with ⟨_, _, _⟩
  simp only [Heap.Report.mk.injEq]
  exact ⟨hcounters, hsize, htouched⟩

theorem heapReport_output_eq (r : Heap.Report) : r.output =
    (((usageHeading ++ (ofNat (r.counters .totalUsage) ++ [' '])) ++ "bytes\n".toList)
      ++ labelledLines heapLines r)
      ++ ("Size histogram: ".toList ++ (histogramText r.sizeHistogram ++ "\n".toList))
      ++ ("Unsafe size histogram: ".toList ++ (histogramText r.unsafeSizeHistogram
        ++ "\n".toList)) := by
  have hunit : " bytes\n".toList = [' '] ++ "bytes\n".toList := rfl
  unfold Heap.Report.output usageHeading labelledLines heapLines
  rw [hunit]
  simp only [List.flatMap_cons, List.flatMap_nil, List.append_nil, List.append_assoc]

theorem tells_heapReport : Tells Heap.Report.output id := by
  have husage := (tells_number (c := ' ') rfl usageHeading
    fun r : Heap.Report ↦ r.counters .totalUsage).append_of_factor
      (e := fun _ ↦ "bytes\n".toList) fun _ _ _ ↦ rfl
  have hfigures := ((husage.append (tells_labelledLines heapLines)).append
    (tells_histogram "Size histogram: ".toList (·.sizeHistogram))).append
    (tells_histogram "Unsafe size histogram: ".toList (·.unsafeSizeHistogram))
  intro r r' l l' heq
  rw [heapReport_output_eq, heapReport_output_eq] at heq
  refine hfigures.of_eq (fun r r' h ↦ ?_) _ _ _ _ heq
  simp only [Prod.mk.injEq] at h
  exact heapReport_ext h.1.1.1 h.1.1.2 h.1.2 h.2

theorem marked_heapReport : Marked Heap.Report.output := .inr fun r ↦ by
  have hheading : usageHeading = '\n' :: '=' :: usageHeading.drop 2 := rfl
  rw [heapReport_output_eq, hheading]
  exact ⟨'=', _, by decide, rfl⟩

end Tracker

/-! ## The files can be read -/

/-- In all interleavings of all writers the contents of the file determine the reports in it, and when
no write is in progress these are the reports whose writing has begun. -/
structure Legible {ρ : Type} (output : ρ → Text) : Prop where
  told : ∀ (τ τ' : Type) [DecidableEq τ] [DecidableEq τ'] (ms : List (Move τ (Writing ρ)))
    (ms' : List (Move τ' (Writing ρ))),
      ((writers output).run start ms).shared.text = ((writers output).run start ms').shared.text →
        ((writers output).run start ms).shared.reports
          = ((writers output).run start ms').shared.reports
  complete : ∀ (τ : Type) [DecidableEq τ] [Fintype τ] (ms : List (Move τ (Writing ρ))),
    (∀ t, ∃ l, ((writers output).run start ms).Idle t l) →
      ((writers output).run start ms).shared.reports.Perm
        ((writers output).run start ms).shared.begun

theorem legible {ρ : Type} {output : ρ → Text} (h : Tells output id) (hmarked : Marked output) :
    Legible output where
  told _ _ _ _ _ _ htext := reports_eq_of_text_eq h hmarked htext
  complete _ _ _ ms hidle := reports_perm_begun ms hidle

/-- The stat files of the three runtimes that report figures can be read, whoever else was writing. -/
theorem stat_files_legible : Legible CpuCycle.CycleReport.output ∧
    Legible UnsafeCounter.CounterReport.output ∧ Legible Heap.Report.output := by
  refine ⟨?_, ?_, ?_⟩
  · exact legible tells_cycleReport marked_cycleReport
  · exact legible tells_counterReport marked_counterReport
  · exact legible tells_heapReport marked_heapReport

end UnsafePerf.StatFiles
