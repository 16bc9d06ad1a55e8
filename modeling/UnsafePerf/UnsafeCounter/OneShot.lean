import UnsafePerf.UnsafeCounter.Aggregate

/-!
# The one-shot flags

Two flags make two operations happen once: `metadata_initialized` is taken by the first call that
installs a table, `stats_written` by the first call that writes the report. Both are taken with an
atomic swap before the call knows whether it can do its work, and neither is given back. A table
that is rejected, or empty, is the only one there will ever be; a report that is asked for before
the table is there is never written.

The second half is about every interleaving. One thread at a time can be on its way from the swap to
the report: `Phase` says how far the report has come, and moves on with the steps of that thread
alone. The report is lost by exactly one kind of step, the one in which this thread finds no table
(`Loses`).
-/

open Concurrency

namespace UnsafePerf.UnsafeCounter

/-! ## Installing one of several tables -/

/-- The table can be installed, and has something to report about. -/
def MetadataTable.Valid (table : MetadataTable) : Prop :=
  1 ≤ table.entries.length ∧ table.entries.length ≤ maxFunctions

instance (table : MetadataTable) : Decidable table.Valid := inferInstanceAs (Decidable (_ ∧ _))

/-- The table is the one in place. -/
def Shared.HasTable (s : Shared) (table : MetadataTable) : Prop :=
  s.metadataCount.toNat = table.entries.length ∧
    ∀ (i : ℕ) (hi : i < table.entries.length), s.metadata i = some table.entries[i]

/-- Calls of `init_metadata`, one after the other, from program start. -/
def initAll (tables : List MetadataTable) : Shared :=
  tables.foldl (fun s table ↦ ((initMetadata table).exec s).2) .new

section Init

variable {s : Shared} {table : MetadataTable}

theorem initMetadata_exec_of_initialized (hs : s.metadataInitialized = true) :
    ((initMetadata table).exec s).2 = s := by
  simp [initMetadata, hs]
  rw [← hs]

/-- Whatever the table, no later call does anything. -/
theorem initMetadata_exec_initialized :
    ((initMetadata table).exec s).2.metadataInitialized = true := by
  by_cases hs : s.metadataInitialized = true
  · rw [initMetadata_exec_of_initialized hs, hs]
  · rw [Bool.not_eq_true] at hs
    by_cases hle : table.entries.length ≤ maxFunctions
    · have hzero : 0 + table.entries.length ≤ maxFunctions := by omega
      simp [initMetadata, hs, not_lt.mpr hle, writeMetadata_exec hzero]
    · simp [initMetadata, hs, not_le.mp hle]

theorem foldl_initMetadata (hs : s.metadataInitialized = true) (tables : List MetadataTable) :
    tables.foldl (fun s table ↦ ((initMetadata table).exec s).2) s = s := by
  induction tables with
  | nil => rfl
  | cons table tables ih => rw [List.foldl_cons, initMetadata_exec_of_initialized hs, ih]

/-- The first call decides. -/
theorem initAll_cons (table : MetadataTable) (tables : List MetadataTable) :
    initAll (table :: tables) = ((initMetadata table).exec .new).2 := by
  rw [initAll, List.foldl_cons, foldl_initMetadata initMetadata_exec_initialized]

theorem hasTable_initMetadata (hle : table.entries.length ≤ maxFunctions) :
    ((initMetadata table).exec .new).2.HasTable table := by
  have htallied := tallied_installed hle
  have hlt : table.entries.length < UInt32.size := table.length_lt
  refine ⟨?_, fun i hi ↦ ?_⟩
  · rw [htallied.metadataCount, UInt32.toNat_ofNat_of_lt' hlt]
  · rw [htallied.metadata, List.getElem?_eq_getElem hi]

/-- A table that cannot be installed leaves the count at zero. -/
theorem metadataCount_of_not_valid (h : ¬table.Valid) :
    ((initMetadata table).exec .new).2.metadataCount.toNat = 0 := by
  by_cases hle : table.entries.length ≤ maxFunctions
  · have hzero : table.entries.length = 0 := by
      rw [MetadataTable.Valid] at h
      omega
    rw [(hasTable_initMetadata hle).1, hzero]
  · simp [initMetadata, Shared.new, UnsafeTracker.new, not_le.mp hle]

end Init

/-- After any sequence of calls the first valid table is in place just if it was the first of all
tables. -/
theorem first_valid_installed_iff (tables : List MetadataTable) (table : MetadataTable)
    (hfirst : tables.find? (fun table ↦ table.Valid) = some table) :
    (initAll tables).HasTable table ↔ tables.head? = some table := by
  have hvalid : table.Valid := by simpa using List.find?_some hfirst
  cases tables with
  | nil => simp at hfirst
  | cons table' tables =>
    rw [initAll_cons, List.head?_cons, Option.some.injEq]
    constructor
    · rintro ⟨hcount, -⟩
      by_contra hne
      have hnot : ¬table'.Valid := by
        intro hvalid'
        rw [List.find?_cons_of_pos (by simpa using hvalid'), Option.some.injEq] at hfirst
        exact hne hfirst
      have hpos := hvalid.1
      rw [metadataCount_of_not_valid hnot] at hcount
      omega
    · rintro rfl
      exact hasTable_initMetadata hvalid.2

/-- The table of a module without functions. -/
def noFunctions : MetadataTable := ⟨[], by decide⟩

theorem first_valid_installed_iff_twoFunctions :
    (initAll [twoFunctions, noFunctions]).HasTable twoFunctions :=
  (first_valid_installed_iff [twoFunctions, noFunctions] twoFunctions rfl).mpr rfl

theorem first_valid_not_installed :
    ¬∀ (tables : List MetadataTable) (table : MetadataTable),
      tables.find? (fun table ↦ table.Valid) = some table → (initAll tables).HasTable table := by
  intro h
  have htable := h [noFunctions, twoFunctions] twoFunctions rfl
  have hnone : (initAll [noFunctions, twoFunctions]).metadataCount.toNat = 0 := by decide +kernel
  rw [htable.1] at hnone
  exact absurd hnone (by decide)

/-! ## Writing one report -/

/-- The calls of the instrumented program and of its end. -/
inductive Op where
  | initMetadata (table : MetadataTable)
  | recordFunction (funcId : UInt32)
  | recordBlock (b : Block)
  /-- `__unsafe_dump_stats`, called by the module destructor. -/
  | dumpStats
  /-- The destructor of the library, as a backup. -/
  | cleanup

/-- The code of a call. -/
def Op.code : Op → Program Shared Unit
  | .initMetadata table => UnsafeCounter.initMetadata table
  | .recordFunction funcId => UnsafeCounter.recordFunction funcId
  | .recordBlock b => UnsafeCounter.recordBlock b
  | .dumpStats | .cleanup => UnsafeCounter.dumpStats

/-- The call is to write the report. -/
def Op.dumps : Op → Bool
  | .dumpStats | .cleanup => true
  | .initMetadata _ | .recordFunction _ | .recordBlock _ => false

/-- Any number of threads make any calls. -/
def counting (τ : Type) : Service τ Op Shared Unit where
  code _ op _ := op.code
  allowed _ _ _ _ := true

/-! ### The parts of `dump_stats` -/

/-- The rest of `dump_stats` after the count was read. -/
def writeReport (metadataCount : ℕ) : Program Shared Unit := do
  let instructions ← loadInstructions instCounters
  let functions ← countFunctions (List.range metadataCount) .zero
  let report : CounterReport := ⟨instructions, functions⟩
  .store fun s ↦ { s with outputs := s.outputs ++ [report.output] }

/-- The rest of `dump_stats` after `metadata_initialized` was read. -/
def readCount : Program Shared Unit := do
  let metadataCount ← .load fun s ↦ s.metadataCount.toNat
  if metadataCount = 0 then return
  writeReport metadataCount

/-- The rest of `dump_stats` after it has taken `stats_written`. -/
def readInitialized : Program Shared Unit := do
  let initialized ← .load fun s ↦ s.metadataInitialized
  if !initialized then return
  readCount

theorem dumpStats_eq : dumpStats = .atomic (fun s ↦ { s with statsWritten := true })
    fun s ↦ if s.statsWritten then .done () else readInitialized := rfl

theorem readInitialized_eq : readInitialized = .atomic (fun s ↦ s)
    fun s ↦ if !s.metadataInitialized then .done () else readCount := rfl

theorem readCount_eq : readCount = .atomic (fun s ↦ s)
    fun s ↦ if s.metadataCount.toNat = 0 then .done () else writeReport s.metadataCount.toNat := rfl

/-- What is left of the program neither takes `stats_written` nor writes a report. -/
def Quiet {α : Type} (p : Program Shared α) : Prop :=
  p.Guarded (fun _ _ ↦ True)
    (fun s s' ↦ s'.statsWritten = s.statsWritten ∧ s'.outputs = s.outputs) fun _ ↦ True

/-- What is left of the program writes one report and does not take `stats_written`. -/
def Commits (p : Program Shared Unit) : Prop :=
  ∃ (α : Type) (q : Program Shared α) (text : α → Text), Quiet q ∧
    p = q >>= fun a ↦ .store fun s ↦ { s with outputs := s.outputs ++ [text a] }

namespace Quiet

variable {α β : Type}

theorem bind {p : Program Shared α} {f : α → Program Shared β} (hp : Quiet p)
    (hf : ∀ a, Quiet (f a)) : Quiet (p >>= f) :=
  Program.Guarded.bind hp fun a _ ↦ hf a

theorem pure (a : α) : Quiet (.done a) := trivial

theorem rmw {f : Shared → α × Shared}
    (h : ∀ s, (f s).2.statsWritten = s.statsWritten ∧ (f s).2.outputs = s.outputs) :
    Quiet (.rmw f) := fun s _ ↦ ⟨h s, trivial⟩

theorem load (f : Shared → α) : Quiet (.load f) := rmw fun _ ↦ ⟨rfl, rfl⟩

theorem store {f : Shared → Shared}
    (h : ∀ s, (f s).statsWritten = s.statsWritten ∧ (f s).outputs = s.outputs) :
    Quiet (.store f) := rmw h

theorem step {u : Shared → Shared} {k : Shared → Program Shared α} (h : Quiet (.atomic u k))
    (s : Shared) :
    (u s).statsWritten = s.statsWritten ∧ (u s).outputs = s.outputs ∧ Quiet (k s) :=
  ⟨(h s trivial).1.1, (h s trivial).1.2, (h s trivial).2⟩

/-- A quiet program run to its end has written nothing. -/
theorem exec_outputs {p : Program Shared α} (h : Quiet p) (s : Shared) :
    (p.exec s).2.outputs = s.outputs := by
  induction p generalizing s with
  | done a => rfl
  | atomic u k ih =>
    obtain ⟨-, houtputs, hnext⟩ := h.step s
    exact (ih s hnext (u s)).trans houtputs

end Quiet

theorem quiet_writeMetadata (i : ℕ) (entries : List FunctionMetadata) :
    Quiet (writeMetadata i entries) := by
  induction entries generalizing i with
  | nil => exact .pure ()
  | cons entry entries ih => exact .bind (.store fun s ↦ ⟨rfl, rfl⟩) fun _ ↦ ih (i + 1)

theorem quiet_initMetadata (table : MetadataTable) : Quiet (initMetadata table) := by
  refine .bind (.rmw fun s ↦ ⟨rfl, rfl⟩) fun initialized ↦ ?_
  split
  · exact .pure ()
  · dsimp only
    split
    · exact .pure ()
    · exact .bind (quiet_writeMetadata 0 _) fun _ ↦ .store fun s ↦ ⟨rfl, rfl⟩

theorem quiet_recordFunction (funcId : UInt32) : Quiet (recordFunction funcId) := by
  rw [recordFunction]
  split
  · exact .pure ()
  · exact .bind (.store fun s ↦ ⟨rfl, rfl⟩) fun _ ↦ .store fun s ↦ ⟨rfl, rfl⟩

theorem quiet_addCategory (c : InstCounter) (d : UInt16) : Quiet (addCategory c d) := by
  rw [addCategory]
  split
  · exact .store fun s ↦ ⟨rfl, rfl⟩
  · exact .pure ()

theorem quiet_recordBlock (b : Block) : Quiet (recordBlock b) := by
  refine .bind (.store fun s ↦ ⟨rfl, rfl⟩) fun _ ↦ ?_
  split
  · exact .pure ()
  · refine .bind (.store fun s ↦ ⟨rfl, rfl⟩) fun _ ↦ ?_
    iterate 5 refine .bind (quiet_addCategory _ _) fun _ ↦ ?_
    exact quiet_addCategory _ _

theorem quiet_loadInstructions (cs : List InstCounter) : Quiet (loadInstructions cs) := by
  induction cs with
  | nil => exact .pure _
  | cons c cs ih => exact .bind (.load _) fun _ ↦ .bind ih fun _ ↦ .pure _

theorem quiet_countFunctions (is : List ℕ) (totals : FunctionTotals) :
    Quiet (countFunctions is totals) := by
  induction is generalizing totals with
  | nil => exact .pure _
  | cons i is ih =>
    have hentry : Quiet (loadMetadata i) := by
      refine .rmw fun s ↦ ?_
      split
      · exact ⟨rfl, rfl⟩
      · exact ⟨rfl, rfl⟩
    refine .bind (.rmw fun s ↦ ⟨rfl, rfl⟩) fun seen ↦ ?_
    split
    · exact .bind hentry fun _ ↦ .bind (.rmw fun s ↦ ⟨rfl, rfl⟩) fun _ ↦ ih _
    · exact ih totals

theorem commits_writeReport (metadataCount : ℕ) : Commits (writeReport metadataCount) := by
  refine ⟨CounterReport, loadInstructions instCounters >>= fun instructions ↦
    countFunctions (List.range metadataCount) .zero >>= fun functions ↦
      .done ⟨instructions, functions⟩, CounterReport.output, ?_, ?_⟩
  · exact (quiet_loadInstructions _).bind fun _ ↦ (quiet_countFunctions _ _).bind fun _ ↦ .pure _
  · simp only [writeReport, bind_assoc, Program.done_bind]

namespace Commits

variable {p : Program Shared Unit}

/-- A step writes the report and ends the program, or writes nothing and leaves a program that will. -/
theorem step {u : Shared → Shared} {k : Shared → Program Shared Unit} (h : Commits (.atomic u k))
    (s : Shared) : (u s).statsWritten = s.statsWritten ∧
      ((∃ text, (u s).outputs = s.outputs ++ [text]) ∧ k s = .done () ∨
        (u s).outputs = s.outputs ∧ Commits (k s)) := by
  obtain ⟨α, q, text, hq, heq⟩ := h
  cases q with
  | done a =>
    obtain ⟨rfl, rfl⟩ := Program.atomic.inj heq
    exact ⟨rfl, .inl ⟨⟨text a, rfl⟩, rfl⟩⟩
  | atomic u' k' =>
    obtain ⟨rfl, rfl⟩ := Program.atomic.inj heq
    obtain ⟨hwritten, houtputs, hnext⟩ := hq.step s
    exact ⟨hwritten, .inr ⟨houtputs, α, k' s, text, hnext, rfl⟩⟩

theorem exec_outputs (h : Commits p) (s : Shared) :
    ∃ text, (p.exec s).2.outputs = s.outputs ++ [text] := by
  obtain ⟨α, q, text, hq, rfl⟩ := h
  rw [Program.exec_bind, Program.exec_store]
  exact ⟨_, congrArg (· ++ [_]) (hq.exec_outputs s)⟩

theorem ne_done (h : Commits p) : p ≠ .done () := by
  rintro rfl
  obtain ⟨text, htext⟩ := h.exec_outputs .new
  simp at htext

theorem not_quiet (h : Commits p) : ¬Quiet p := by
  intro hquiet
  obtain ⟨text, htext⟩ := h.exec_outputs .new
  rw [hquiet.exec_outputs] at htext
  simp at htext

end Commits

/-! ### What tells the parts apart -/

/-- A state in which a report can be written. -/
def reportable : Shared := { Shared.new with metadataInitialized := true, metadataCount := 1 }

theorem readCount_exec_of_count {s : Shared} (hs : s.metadataCount.toNat ≠ 0) :
    ∃ text, (readCount.exec s).2.outputs = s.outputs ++ [text] := by
  have hexec : readCount.exec s = (writeReport s.metadataCount.toNat).exec s := by
    simp [readCount, hs]
  rw [hexec]
  exact (commits_writeReport _).exec_outputs s

theorem readInitialized_exec_of_initialized {s : Shared} (hs : s.metadataInitialized = true) :
    readInitialized.exec s = readCount.exec s := by
  simp [readInitialized, hs]

/-- A thread that has not taken the flag: what it does is quiet, or it is about to take it. -/
def Resting (p : Program Shared Unit) : Prop := Quiet p ∨ p = dumpStats

theorem not_quiet_readCount : ¬Quiet readCount := by
  intro h
  obtain ⟨text, htext⟩ := readCount_exec_of_count (s := reportable) (by decide)
  rw [h.exec_outputs] at htext
  simp at htext

theorem not_quiet_readInitialized : ¬Quiet readInitialized := by
  intro h
  obtain ⟨text, htext⟩ := readCount_exec_of_count (s := reportable) (by decide)
  rw [← readInitialized_exec_of_initialized rfl, h.exec_outputs] at htext
  simp at htext

theorem not_quiet_dumpStats : ¬Quiet dumpStats := by
  intro h
  have hstep := (h.step Shared.new).1
  exact absurd hstep (by decide)

/-- `dump_stats` writes nothing when the flag is taken. -/
theorem dumpStats_exec_of_written {s : Shared} (hs : s.statsWritten = true) :
    (dumpStats.exec s).2.outputs = s.outputs := by
  rw [dumpStats_eq, Program.exec, hs, if_pos rfl]
  rfl

theorem Resting.ne_readCount {p : Program Shared Unit} (h : Resting p) : p ≠ readCount := by
  rintro rfl
  rcases h with hquiet | heq
  · exact not_quiet_readCount hquiet
  · obtain ⟨text, htext⟩ := readCount_exec_of_count (s := { reportable with statsWritten := true })
      (by decide)
    rw [heq, dumpStats_exec_of_written rfl] at htext
    simp at htext

theorem Resting.ne_readInitialized {p : Program Shared Unit} (h : Resting p) :
    p ≠ readInitialized := by
  rintro rfl
  rcases h with hquiet | heq
  · exact not_quiet_readInitialized hquiet
  · obtain ⟨text, htext⟩ := readCount_exec_of_count (s := { reportable with statsWritten := true })
      (by decide)
    rw [← readInitialized_exec_of_initialized rfl, heq, dumpStats_exec_of_written rfl] at htext
    simp at htext

theorem readInitialized_ne_readCount : readInitialized ≠ readCount := by
  intro heq
  obtain ⟨text, htext⟩ := readCount_exec_of_count
    (s := { reportable with metadataInitialized := false }) (by decide)
  rw [← heq] at htext
  simp [readInitialized] at htext

theorem Commits.ne_readCount {p : Program Shared Unit} (h : Commits p) : p ≠ readCount := by
  rintro rfl
  obtain ⟨text, htext⟩ := h.exec_outputs .new
  simp [readCount, Shared.new, UnsafeTracker.new] at htext

theorem Commits.ne_readInitialized {p : Program Shared Unit} (h : Commits p) :
    p ≠ readInitialized := by
  rintro rfl
  obtain ⟨text, htext⟩ := h.exec_outputs .new
  simp [readInitialized, Shared.new, UnsafeTracker.new] at htext

/-! ### How far the report has come -/

section Phases

variable {τ : Type}

/-- How far the report has come. -/
inductive Phase (τ : Type) where
  /-- Nobody has taken the flag. -/
  | free
  /-- The thread has taken the flag and has not yet found the table. -/
  | taken (t : τ)
  /-- The thread has found the table. -/
  | writing (t : τ)
  | written
  /-- The thread that took the flag found no table. -/
  | lost

/-- The thread that has taken the flag and is not done. -/
def Phase.holder : Phase τ → Option τ
  | .taken t | .writing t => some t
  | .free | .written | .lost => none

/-- The state is in this phase. -/
def Phase.Holds (c : Config τ Shared Unit) : Phase τ → Prop
  | .free => c.shared.statsWritten = false ∧ c.shared.outputs = []
  | .taken t => c.shared.statsWritten = true ∧ c.shared.outputs = [] ∧
    (c.thread t = readInitialized ∨ c.thread t = readCount)
  | .writing t => c.shared.statsWritten = true ∧ c.shared.outputs = [] ∧ Commits (c.thread t)
  | .written => c.shared.statsWritten = true ∧ c.shared.outputs.length = 1
  | .lost => c.shared.statsWritten = true ∧ c.shared.outputs = []

/-- The state is in this phase, and no thread but the holder of the flag is concerned. -/
structure InPhase (c : Config τ Shared Unit) (φ : Phase τ) : Prop where
  holds : φ.Holds c
  resting : ∀ u, φ.holder ≠ some u → Resting (c.thread u)

/-- In this step the thread that took the flag finds that there is no table. -/
def Loses (c : Config τ Shared Unit) : Move τ Op → Prop
  | .call _ _ => False
  | .step t => c.thread t = readInitialized ∧ c.shared.metadataInitialized = false ∨
    c.thread t = readCount ∧ c.shared.metadataCount.toNat = 0

theorem resting_code (op : Op) : Resting op.code := by
  cases op with
  | initMetadata table => exact .inl (quiet_initMetadata table)
  | recordFunction funcId => exact .inl (quiet_recordFunction funcId)
  | recordBlock b => exact .inl (quiet_recordBlock b)
  | dumpStats | cleanup => exact .inr rfl

variable [DecidableEq τ]

/-- A step of a resting thread changes nothing but that thread, or takes the flag. -/
theorem step_resting {c : Config τ Shared Unit} {u : τ} (h : Resting (c.thread u)) :
    let c' := (counting τ).move c (.step u)
    (∀ v ≠ u, c'.thread v = c.thread v) ∧ c'.shared.outputs = c.shared.outputs ∧
      (Resting (c'.thread u) ∧ c'.shared.statsWritten = c.shared.statsWritten ∨
        c.shared.statsWritten = false ∧ c'.shared.statsWritten = true ∧
          c'.thread u = readInitialized) := by
  intro c'
  rcases h with hquiet | hdump
  · cases hu : c.thread u with
    | done =>
      have hsame : c' = c := Service.move_step_idle _ hu
      rw [hsame]
      exact ⟨fun _ _ ↦ rfl, rfl, .inl ⟨.inl hquiet, rfl⟩⟩
    | atomic update next =>
      rw [hu] at hquiet
      obtain ⟨hwritten, houtputs, hnext⟩ := hquiet.step c.shared
      have hmove : c' = ⟨update c.shared, Function.update c.thread u (next c.shared)⟩ :=
        Service.move_step _ hu
      have hthread : c'.thread u = next c.shared := by
        rw [hmove]
        exact Function.update_self ..
      rw [hthread, hmove]
      exact ⟨fun v hv ↦ Function.update_of_ne hv .., houtputs, .inl ⟨.inl hnext, hwritten⟩⟩
  · rw [dumpStats_eq] at hdump
    have hmove : c' = ⟨{ c.shared with statsWritten := true }, Function.update c.thread u
        (if c.shared.statsWritten then .done () else readInitialized)⟩ :=
      Service.move_step _ hdump
    have hthread : c'.thread u
        = if c.shared.statsWritten then .done () else readInitialized := by
      rw [hmove]
      exact Function.update_self ..
    rw [hthread, hmove]
    refine ⟨fun v hv ↦ Function.update_of_ne hv .., rfl, ?_⟩
    cases hwritten : c.shared.statsWritten with
    | true => exact .inl ⟨.inl (.pure ()), rfl⟩
    | false => exact .inr ⟨rfl, rfl, rfl⟩

/-- A call changes nothing but its thread, which rests afterwards if it did before. -/
theorem call_resting {c : Config τ Shared Unit} (u : τ) (op : Op) :
    let c' := (counting τ).move c (.call u op)
    c'.shared = c.shared ∧ (∀ v ≠ u, c'.thread v = c.thread v) ∧
      (c'.thread u = c.thread u ∨ Resting (c'.thread u) ∧ c.thread u = .done ()) := by
  intro c'
  cases hu : c.thread u with
  | done =>
    have hmove : c' = { c with thread := Function.update c.thread u op.code } :=
      Service.move_call _ op hu rfl
    have hthread : c'.thread u = op.code := by
      rw [hmove]
      exact Function.update_self ..
    rw [hthread, hmove]
    exact ⟨rfl, fun v hv ↦ Function.update_of_ne hv .., .inr ⟨resting_code op, rfl⟩⟩
  | atomic update next =>
    have hmove : c' = c := Service.move_call_busy _ op hu
    rw [hmove]
    exact ⟨rfl, fun _ _ ↦ rfl, .inl hu⟩

namespace InPhase

variable {c : Config τ Shared Unit} {φ : Phase τ}

omit [DecidableEq τ] in
/-- What the phase speaks about is the same, and the others rest. -/
theorem congr (h : InPhase c φ) {c' : Config τ Shared Unit}
    (hwritten : c'.shared.statsWritten = c.shared.statsWritten)
    (houtputs : c'.shared.outputs = c.shared.outputs)
    (hholder : ∀ t, φ.holder = some t → c'.thread t = c.thread t)
    (hresting : ∀ u, φ.holder ≠ some u → Resting (c'.thread u)) : InPhase c' φ where
  holds := by
    have hholds := h.holds
    cases φ with
    | taken t | writing t => simpa [Phase.Holds, hwritten, houtputs, hholder t rfl] using hholds
    | free | written | lost => simpa [Phase.Holds, hwritten, houtputs] using hholds
  resting := hresting

omit [DecidableEq τ] in
theorem holder_ne_done (h : InPhase c φ) {t : τ} (ht : φ.holder = some t) :
    c.thread t ≠ .done () := by
  have hholds := h.holds
  cases φ with
  | taken u =>
    obtain rfl : u = t := Option.some.inj ht
    obtain ⟨-, -, hthread | hthread⟩ := hholds
    · rw [hthread, readInitialized_eq]
      simp
    · rw [hthread, readCount_eq]
      simp
  | writing u =>
    obtain rfl : u = t := Option.some.inj ht
    exact hholds.2.2.ne_done
  | free | written | lost => simp [Phase.holder] at ht

omit [DecidableEq τ] in
theorem eq_free (h : InPhase c φ) (hwritten : c.shared.statsWritten = false) : φ = .free := by
  have hholds := h.holds
  cases φ with
  | free => rfl
  | taken t | writing t | written | lost => simp [Phase.Holds, hwritten] at hholds

/-- A call begins, or is refused. -/
theorem call (h : InPhase c φ) (u : τ) (op : Op) :
    InPhase ((counting τ).move c (.call u op)) φ := by
  obtain ⟨hshared, hothers, hself⟩ := call_resting (c := c) u op
  have hsame : ∀ t, φ.holder = some t →
      ((counting τ).move c (.call u op)).thread t = c.thread t := by
    intro t ht
    by_cases htu : t = u
    · subst htu
      exact hself.resolve_right fun hdone ↦ h.holder_ne_done ht hdone.2
    · exact hothers t htu
  refine h.congr (by rw [hshared]) (by rw [hshared]) hsame fun v hv ↦ ?_
  by_cases hvu : v = u
  · subst hvu
    rcases hself with hsame | ⟨hrest, -⟩
    · exact hsame ▸ h.resting v hv
    · exact hrest
  · exact hothers v hvu ▸ h.resting v hv

/-- A step of a thread that is not the holder leaves the phase, or takes the flag. -/
theorem step_other (h : InPhase c φ) {u : τ} (hu : φ.holder ≠ some u) :
    InPhase ((counting τ).move c (.step u)) φ ∨
      φ = .free ∧ InPhase ((counting τ).move c (.step u)) (.taken u) := by
  obtain ⟨hothers, houtputs, ⟨hrest, hwritten⟩ | ⟨hfree, htaken, hthread⟩⟩ :=
    step_resting (h.resting u hu)
  · refine .inl (h.congr hwritten houtputs (fun t ht ↦ hothers t ?_) fun v hv ↦ ?_)
    · rintro rfl
      exact hu ht
    · by_cases hvu : v = u
      · exact hvu ▸ hrest
      · exact hothers v hvu ▸ h.resting v hv
  · obtain rfl := h.eq_free hfree
    refine .inr ⟨rfl, ⟨htaken, houtputs.trans h.holds.2, .inl hthread⟩, fun v hv ↦ ?_⟩
    have hvu : v ≠ u := fun heq ↦ hv (heq ▸ rfl)
    exact hothers v hvu ▸ h.resting v (by simp [Phase.holder])

/-- Whatever the holder reads, it changes nothing but its own program. -/
theorem step_reads {t : τ} (h : InPhase c (.taken t)) {next : Shared → Program Shared Unit}
    (hthread : c.thread t = .atomic (fun s ↦ s) next) :
    let c' := (counting τ).move c (.step t)
    c'.shared = c.shared ∧ c'.thread t = next c.shared ∧ ∀ v ≠ t, Resting (c'.thread v) := by
  intro c'
  have hmove : c' = ⟨c.shared, Function.update c.thread t (next c.shared)⟩ :=
    Service.move_step _ hthread
  rw [hmove]
  refine ⟨rfl, Function.update_self .., fun v hv ↦ ?_⟩
  simpa [hv] using h.resting v fun heq ↦ hv (Option.some.inj heq).symm

/-- When the holder is done without having written, the report is lost. -/
theorem lost_of_done {t : τ} (h : InPhase c (.taken t)) {c' : Config τ Shared Unit}
    (hshared : c'.shared = c.shared) (hdone : c'.thread t = .done ())
    (hothers : ∀ v ≠ t, Resting (c'.thread v)) : InPhase c' .lost := by
  obtain ⟨hwritten, houtputs, -⟩ := h.holds
  refine ⟨⟨by rw [hshared, hwritten], by rw [hshared, houtputs]⟩, fun v _ ↦ ?_⟩
  by_cases hv : v = t
  · rw [hv, hdone]
    exact .inl (.pure ())
  · exact hothers v hv

/-- The holder reads: it gives up, reads on, or is going to write. -/
theorem step_taken {t : τ} (h : InPhase c (.taken t)) :
    let c' := (counting τ).move c (.step t)
    (Loses c (.step t) → InPhase c' .lost) ∧
      (¬Loses c (.step t) → InPhase c' (.taken t) ∨ InPhase c' (.writing t)) := by
  intro c'
  obtain ⟨hwritten, houtputs, hthread⟩ := h.holds
  have hothers' : (∀ v ≠ t, Resting (c'.thread v)) → ∀ v, some t ≠ some v → Resting (c'.thread v) :=
    fun hothers v hv ↦ hothers v fun heq ↦ hv (heq ▸ rfl)
  rcases hthread with hinit | hcount
  · obtain ⟨hshared, hthread', hothers⟩ := h.step_reads (hinit.trans readInitialized_eq)
    cases hread : c.shared.metadataInitialized with
    | false =>
      simp only [hread, Bool.not_false, if_true] at hthread'
      exact ⟨fun _ ↦ h.lost_of_done hshared hthread' hothers,
        fun hnot ↦ absurd (.inl ⟨hinit, hread⟩) hnot⟩
    | true =>
      simp only [hread, Bool.not_true, Bool.false_eq_true, if_false] at hthread'
      constructor
      · rintro (⟨-, hfalse⟩ | ⟨hcount, -⟩)
        · rw [hread] at hfalse
          exact absurd hfalse (by decide)
        · exact absurd (hinit.symm.trans hcount) readInitialized_ne_readCount
      · exact fun _ ↦ .inl ⟨⟨by rw [hshared, hwritten], by rw [hshared, houtputs], .inr hthread'⟩,
          hothers' hothers⟩
  · obtain ⟨hshared, hthread', hothers⟩ := h.step_reads (hcount.trans readCount_eq)
    by_cases hread : c.shared.metadataCount.toNat = 0
    · rw [if_pos hread] at hthread'
      exact ⟨fun _ ↦ h.lost_of_done hshared hthread' hothers,
        fun hnot ↦ absurd (.inr ⟨hcount, hread⟩) hnot⟩
    · rw [if_neg hread] at hthread'
      constructor
      · rintro (⟨hinit, -⟩ | ⟨-, hzero⟩)
        · exact absurd (hinit.symm.trans hcount) readInitialized_ne_readCount
        · exact absurd hzero hread
      · exact fun _ ↦ .inr ⟨⟨by rw [hshared, hwritten], by rw [hshared, houtputs],
          hthread' ▸ commits_writeReport _⟩, hothers' hothers⟩

/-- The holder goes on, or writes the report and is done. -/
theorem step_writing {t : τ} (h : InPhase c (.writing t)) :
    InPhase ((counting τ).move c (.step t)) (.writing t) ∨
      InPhase ((counting τ).move c (.step t)) .written := by
  obtain ⟨hwritten, houtputs, hcommits⟩ := h.holds
  have hrest : ∀ v ≠ t, Resting (c.thread v) := fun v hv ↦
    h.resting v fun heq ↦ hv (Option.some.inj heq).symm
  cases hthread : c.thread t with
  | done => exact absurd hthread hcommits.ne_done
  | atomic update next =>
    rw [hthread] at hcommits
    rw [Service.move_step _ hthread]
    obtain ⟨hsame, ⟨⟨text, htext⟩, hdone⟩ | ⟨houtputs', hcommits'⟩⟩ := hcommits.step c.shared
    · refine .inr ⟨⟨hsame.trans hwritten, ?_⟩, fun v _ ↦ ?_⟩
      · change (update c.shared).outputs.length = 1
        rw [htext, houtputs]
        rfl
      · by_cases hv : v = t
        · subst hv
          rw [hdone]
          simp [Resting, Quiet, Program.Guarded]
        · simpa [hv] using hrest v hv
    · refine .inl ⟨⟨hsame.trans hwritten, houtputs'.trans houtputs, ?_⟩, fun v hv ↦ ?_⟩
      · simpa using hcommits'
      · have hvt : v ≠ t := fun heq ↦ hv (heq ▸ rfl)
        simpa [hvt] using hrest v hvt

omit [DecidableEq τ] in
/-- Only the thread that has taken the flag and not yet found the table can lose the report. -/
theorem not_loses (h : InPhase c φ) {m : Move τ Op} (hφ : ∀ t, φ = .taken t → m ≠ .step t) :
    ¬Loses c m := by
  cases m with
  | call u op => exact id
  | step u =>
    have hne : c.thread u ≠ readInitialized ∧ c.thread u ≠ readCount := by
      by_cases hu : φ.holder = some u
      · cases φ with
        | taken t => exact absurd (congrArg Move.step (Option.some.inj hu).symm) (hφ t rfl)
        | writing t =>
          obtain rfl : t = u := Option.some.inj hu
          exact ⟨h.holds.2.2.ne_readInitialized, h.holds.2.2.ne_readCount⟩
        | free | written | lost => simp [Phase.holder] at hu
      · exact ⟨(h.resting u hu).ne_readInitialized, (h.resting u hu).ne_readCount⟩
    rintro (⟨hinit, -⟩ | ⟨hcount, -⟩)
    · exact hne.1 hinit
    · exact hne.2 hcount

/-- Every move leads to a phase, to `lost` just by losing the report, and never back to `free`. -/
theorem move (h : InPhase c φ) (m : Move τ Op) :
    ∃ φ', InPhase ((counting τ).move c m) φ' ∧ (φ' = .lost ↔ φ = .lost ∨ Loses c m) ∧
      (φ' = .free → φ = .free) := by
  have hsame : (∀ t, φ = .taken t → m ≠ .step t) → InPhase ((counting τ).move c m) φ →
      ∃ φ', InPhase ((counting τ).move c m) φ' ∧ (φ' = .lost ↔ φ = .lost ∨ Loses c m) ∧
        (φ' = .free → φ = .free) := fun hφ hnext ↦
    ⟨φ, hnext, (or_iff_left (h.not_loses hφ)).symm, id⟩
  cases m with
  | call u op => exact hsame (by simp) (h.call u op)
  | step u =>
    by_cases hu : φ.holder = some u
    · cases φ with
      | taken t =>
        obtain rfl : t = u := Option.some.inj hu
        obtain ⟨hlost, hkept⟩ := h.step_taken
        by_cases hloses : Loses c (.step t)
        · exact ⟨.lost, hlost hloses, by simp [hloses], by simp⟩
        · rcases hkept hloses with hnext | hnext
          · exact ⟨.taken t, hnext, by simp [hloses], by simp⟩
          · exact ⟨.writing t, hnext, by simp [hloses], by simp⟩
      | writing t =>
        obtain rfl : t = u := Option.some.inj hu
        have hnot : ¬Loses c (.step t) := h.not_loses (by simp)
        rcases h.step_writing with hnext | hnext
        · exact ⟨.writing t, hnext, by simp [hnot], by simp⟩
        · exact ⟨.written, hnext, by simp [hnot], by simp⟩
      | free | written | lost => simp [Phase.holder] at hu
    · have hnot : ∀ t, φ = .taken t → Move.step u ≠ (.step t : Move τ Op) := by
        rintro t rfl heq
        exact hu (congrArg some (Move.step.inj heq).symm)
      rcases h.step_other hu with hnext | ⟨rfl, hnext⟩
      · exact hsame hnot hnext
      · exact ⟨.taken u, hnext, by simp [h.not_loses hnot], by simp⟩

end InPhase

/-! ### Runs -/

/-- Program start. -/
abbrev programStart (τ : Type) : Config τ Shared Unit := .start .new ()

/-- The move begins a call of the thread that is to write the report. -/
def BeginsDump (c : Config τ Shared Unit) (t : τ) (m : Move τ Op) : Prop :=
  ∃ op : Op, op.dumps = true ∧ m = .call t op ∧ c.thread t = .done ()

/-- A thread that is about to take the flag is still about to, or the flag is taken. -/
theorem dumpStats_move {c : Config τ Shared Unit} {t : τ} (h : c.thread t = dumpStats)
    (m : Move τ Op) : ((counting τ).move c m).thread t = dumpStats ∨
      ((counting τ).move c m).shared.statsWritten = true := by
  cases m with
  | call u op =>
    obtain ⟨-, hothers, hself⟩ := call_resting (c := c) u op
    refine .inl ?_
    by_cases hu : t = u
    · subst hu
      refine (hself.resolve_right fun hdone ↦ ?_).trans h
      rw [h, dumpStats_eq] at hdone
      simp at hdone
    · exact (hothers t hu).trans h
  | step u =>
    by_cases hu : t = u
    · subst hu
      rw [dumpStats_eq] at h
      rw [Service.move_step _ h]
      exact .inr rfl
    · cases hthread : c.thread u with
      | done =>
        rw [Service.move_step_idle _ hthread]
        exact .inl h
      | atomic update next =>
        rw [Service.move_step _ hthread]
        exact .inl ((Function.update_of_ne hu ..).trans h)

/-- After every run there is a phase. The report is lost just if a step of the run has lost it, and
while the flag is free, every call that is to write the report is still about to take it. -/
theorem inPhase_run (ms : List (Move τ Op)) :
    ∃ φ, InPhase ((counting τ).run (programStart τ) ms) φ ∧
      (φ = .lost ↔ ∃ pre m, pre ++ [m] <+: ms ∧
        Loses ((counting τ).run (programStart τ) pre) m) ∧
      (φ = .free → ∀ pre m t, pre ++ [m] <+: ms →
        BeginsDump ((counting τ).run (programStart τ) pre) t m →
          ((counting τ).run (programStart τ) ms).thread t = dumpStats) := by
  induction ms using List.reverseRecOn with
  | nil =>
    refine ⟨.free, ⟨⟨rfl, rfl⟩, fun u _ ↦ .inl (.pure ())⟩, by simp, fun _ pre m t hpre ↦ ?_⟩
    simp at hpre
  | append_singleton ms m ih =>
    obtain ⟨φ, hphase, hlost, hbegun⟩ := ih
    obtain ⟨φ', hphase', hlost', hfree⟩ := hphase.move m
    rw [← Service.run_append_singleton] at hphase'
    refine ⟨φ', hphase', ?_, ?_⟩
    · -- the report is lost by the last move or by an earlier one
      rw [hlost', hlost]
      constructor
      · rintro (⟨pre, m', hpre, hloses⟩ | hloses)
        · exact ⟨pre, m', hpre.trans (List.prefix_append _ _), hloses⟩
        · exact ⟨ms, m, List.prefix_rfl, hloses⟩
      · rintro ⟨pre, m', hpre, hloses⟩
        rcases List.prefix_concat_iff.mp hpre with heq | hpre'
        · obtain ⟨rfl, hm⟩ := List.append_inj' heq rfl
          obtain rfl := List.singleton_inj.mp hm
          exact .inr hloses
        · exact .inl ⟨pre, m', hpre', hloses⟩
    · -- the flag is still free, so a call that has begun has not taken a step
      rintro rfl pre m' t hpre hdump
      have hwritten := hphase'.holds.1
      rcases List.prefix_concat_iff.mp hpre with heq | hpre'
      · obtain ⟨rfl, hm⟩ := List.append_inj' heq rfl
        obtain rfl := List.singleton_inj.mp hm
        obtain ⟨op, hop, rfl, hidle⟩ := hdump
        have hcode : op.code = dumpStats := by
          cases op with
          | dumpStats | cleanup => rfl
          | initMetadata | recordFunction | recordBlock => simp [Op.dumps] at hop
        rw [Service.run_append_singleton, Service.move_call _ op hidle rfl]
        have hself : Function.update ((counting τ).run (programStart τ) pre).thread t op.code t
            = op.code := Function.update_self ..
        exact hself.trans hcode
      · have hnext := dumpStats_move (hbegun (hfree rfl) pre m' t hpre' hdump) m
        rw [← Service.run_append_singleton, hwritten] at hnext
        exact hnext.resolve_right (by simp)

/-- Every run writes at most one report. When a call that is to write it has begun and none is in
progress, the report has been written just if no step has lost it. -/
theorem one_report_iff (ms : List (Move τ Op)) :
    ((counting τ).run (programStart τ) ms).shared.outputs.length ≤ 1 ∧
      ((∃ pre m t, pre ++ [m] <+: ms ∧ BeginsDump ((counting τ).run (programStart τ) pre) t m) →
        (∀ u, Quiet (((counting τ).run (programStart τ) ms).thread u)) →
          (((counting τ).run (programStart τ) ms).shared.outputs.length = 1 ↔
            ∀ pre m, pre ++ [m] <+: ms → ¬Loses ((counting τ).run (programStart τ) pre) m)) := by
  obtain ⟨φ, hphase, hlost, hbegun⟩ := inPhase_run ms
  have hholds := hphase.holds
  constructor
  · cases φ with
    | written => exact hholds.2.le
    | free | lost => simp [hholds.2]
    | taken t | writing t => simp [hholds.2.1]
  · rintro ⟨pre, m, t, hpre, hdump⟩ hquiet
    have hnot : (∀ pre m, pre ++ [m] <+: ms → ¬Loses ((counting τ).run (programStart τ) pre) m) ↔
        φ ≠ .lost := by
      rw [ne_eq, hlost]
      push Not
      rfl
    rw [hnot]
    cases φ with
    | written => simp [hholds.2]
    | lost => simp [hholds.2]
    | free => exact absurd (hbegun rfl pre m t hpre hdump ▸ hquiet t) not_quiet_dumpStats
    | taken u =>
      rcases hholds.2.2 with hinit | hcount
      · exact absurd (hinit ▸ hquiet u) not_quiet_readInitialized
      · exact absurd (hcount ▸ hquiet u) not_quiet_readCount
    | writing u => exact absurd (hquiet u) hholds.2.2.not_quiet

end Phases

/-- The table is being installed when one thread begins to write the report, and there when it looks
for it; a second thread asks for the report in the meantime. -/
def lateTable : List (Move Bool Op) :=
  [.call false (.initMetadata twoFunctions), .step false, .step false, .step false,
    .call true .dumpStats, .step true, .step false, .call false (.recordFunction 1),
    .step false, .step false, .call false .cleanup, .step false] ++ List.replicate 20 (.step true)

theorem one_report_iff_lateTable :
    ((counting Bool).run (programStart Bool) lateTable).shared.outputs.length = 1 ∧
      ∀ pre m, pre ++ [m] <+: lateTable → ¬Loses ((counting Bool).run (programStart Bool) pre) m := by
  have hidle : ∀ u, (((counting Bool).run (programStart Bool) lateTable).thread u).returned
      = some () := by decide +kernel
  have hquiet : ∀ u, Quiet (((counting Bool).run (programStart Bool) lateTable).thread u) := by
    intro u
    rw [Program.returned_eq_some.mp (hidle u)]
    exact .pure ()
  have hone : ((counting Bool).run (programStart Bool) lateTable).shared.outputs.length = 1 := by
    decide +kernel
  have hbegins : BeginsDump ((counting Bool).run (programStart Bool) (lateTable.take 4)) true
      (.call true .dumpStats) := ⟨.dumpStats, rfl, rfl, rfl⟩
  exact ⟨hone, ((one_report_iff lateTable).2
    ⟨lateTable.take 4, _, true, ⟨lateTable.drop 5, rfl⟩, hbegins⟩ hquiet).mp hone⟩

/-- The report is asked for before the table is there, and again afterwards. -/
def earlyReport : List (Move Bool Op) :=
  Move.alone true .dumpStats 2 ++ Move.alone false (.initMetadata twoFunctions) 4
    ++ Move.alone true .dumpStats 1

theorem report_lost :
    ¬∀ (ms pre : List (Move Bool Op)) (m : Move Bool Op) (t : Bool), pre ++ [m] <+: ms →
      BeginsDump ((counting Bool).run (programStart Bool) pre) t m →
      ((counting Bool).run (programStart Bool) pre).shared.metadataCount ≠ 0 →
      (∀ u, ((counting Bool).run (programStart Bool) ms).thread u = .done ()) →
        ((counting Bool).run (programStart Bool) ms).shared.outputs.length = 1 := by
  intro h
  have hidle : ∀ u, (((counting Bool).run (programStart Bool) earlyReport).thread u).returned
      = some () := by decide +kernel
  have hlost : ((counting Bool).run (programStart Bool) earlyReport).shared.outputs.length = 0 := by
    decide +kernel
  have hinstalled : ((counting Bool).run (programStart Bool)
      (earlyReport.take 8)).shared.metadataCount ≠ 0 := by decide +kernel
  have hone := h earlyReport (earlyReport.take 8) _ true ⟨earlyReport.drop 9, rfl⟩
    ⟨.dumpStats, rfl, rfl, Program.returned_eq_some.mp (by decide +kernel)⟩ hinstalled
    fun u ↦ Program.returned_eq_some.mp (hidle u)
  rw [hlost] at hone
  exact absurd hone (by decide)

end UnsafePerf.UnsafeCounter
