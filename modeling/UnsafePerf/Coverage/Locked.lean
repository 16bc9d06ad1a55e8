import UnsafePerf.Concurrency.CriticalSections
import UnsafePerf.Concurrency.Once
import UnsafePerf.Coverage.Fraction

/-!
# The locks of the coverage tracker

The two sets of the tracker are behind two mutexes. An insertion and a clearing take one of them;
whoever computes the coverage takes first the registered lines and then the executed ones, and keeps
both, through the writing of the report, until it returns.

Here the exported functions are programs with these mutexes, in which every load and store is a step
of its own. Since the mutexes are always taken in the same order, the threads never wait for each other
in a circle (`exported_no_deadlock`). Since the sets are only touched under their mutex, every run is
one of the threads of `hooks`, where an insertion is one step and so is a look at both sets
(`exported_refines_hooks`).
-/

open Concurrency

namespace UnsafePerf.Coverage

/-- The mutexes of the tracker. -/
inductive TrackerLock where
  | registeredLines
  | executedLines
  deriving DecidableEq

/-- The order in which they are taken. -/
def TrackerLock.rank : TrackerLock → ℕ
  | .registeredLines => 0
  | .executedLines => 1

/-- The tracker of a process, and what it has shown. -/
structure Process extends UnsafeCoverageTracker where
  /-- The coverages computed. -/
  percentages : List ℚ
  /-- The texts handed to `write_output`. -/
  written : List Text

/-- The start of the process. -/
def Process.new : Process := ⟨.new, [], []⟩

/-- The coverage in percent, from the sizes of the two sets. -/
def percentageOf (registeredCount executedCount : ℕ) : ℚ :=
  if registeredCount > 0 then
    Text.toF64 (Text.toF64 (Text.toF64 executedCount / Text.toF64 registeredCount) * 100)
  else 0

theorem getCoveragePercentage_eq (c : UnsafeCoverageTracker) :
    c.getCoveragePercentage = percentageOf c.registeredLines.card c.executedLines.card := rfl

namespace Locked

open LockProgram

/-- Code of the tracker. -/
abbrev Code (α : Type) := LockProgram TrackerLock Process Unit α

/-- The sizes of both sets, which are locked, and the coverage. -/
def computeCoverage : Code (ℕ × ℕ × ℚ) := do
  let registeredCount ← ofProgram (.load fun s ↦ s.registeredLines.card)
  let executedCount ← ofProgram (.load fun s ↦ s.executedLines.card)
  let coverage := percentageOf registeredCount executedCount
  ofProgram (.store fun s ↦ { s with percentages := s.percentages ++ [coverage] })
  return (registeredCount, executedCount, coverage)

/-- `register_line`. -/
def registerLine (line : ℤ) (file : FileName) : Code Unit :=
  holding .registeredLines <| ofProgram <| .store fun s ↦
    { s with registeredLines := insert (makeLocation line file) s.registeredLines }

/-- `track_execution`. -/
def trackExecution (line : ℤ) (file : FileName) : Code Unit :=
  holding .executedLines <| ofProgram <| .store fun s ↦
    { s with executedLines := insert (makeLocation line file) s.executedLines }

/-- `get_coverage_percentage`. -/
def getCoveragePercentage : Code ℚ :=
  holding .registeredLines <| holding .executedLines do
    let (_, _, coverage) ← computeCoverage
    return coverage

/-- `get_registered_count`. -/
def getRegisteredCount : Code ℕ :=
  holding .registeredLines <| ofProgram <| .load fun s ↦ s.registeredLines.card

/-- `get_executed_count`. -/
def getExecutedCount : Code ℕ :=
  holding .executedLines <| ofProgram <| .load fun s ↦ s.executedLines.card

/-- `reset`. -/
def reset : Code Unit := do
  holding .registeredLines <| ofProgram <| .store fun s ↦ { s with registeredLines := ∅ }
  holding .executedLines <| ofProgram <| .store fun s ↦ { s with executedLines := ∅ }
  ofProgram <| .store fun s ↦ { s with statsWritten := false }
  ofProgram <| .store fun s ↦ { s with runCounter := 0 }

/-- `write_detailed_stats`, which reads the sets it is given; the timestamp is what the clock
returns. -/
def writeDetailedStats (runNum registeredCount executedCount : ℕ) (coverage : ℚ)
    (timestamp : ℕ) : Code Unit := do
  let registered ← ofProgram (.load fun s ↦ s.registeredLines)
  let executed ← ofProgram (.load fun s ↦ s.executedLines)
  let output := detailedStats runNum registered executed registeredCount executedCount coverage
    timestamp
  ofProgram (.store fun s ↦ { s with written := s.written ++ [output] })

/-- `write_stats`. -/
def writeStats (timestamp : ℕ) : Code Unit := do
  let written ← ofProgram (.rmw fun s ↦ (s.statsWritten, { s with statsWritten := true }))
  if written then return
  holding .registeredLines <| holding .executedLines do
    let (registeredCount, executedCount, coverage) ← computeCoverage
    let runNum ← ofProgram <| .rmw fun s ↦ (s.runCounter + 1, { s with runCounter := s.runCounter + 1 })
    writeDetailedStats runNum registeredCount executedCount coverage timestamp

end Locked

/-- A call of an exported function. -/
inductive ExportedCall where
  | hook (call : CoverageCall)
  | registeredCount
  | executedCount

/-- The exported functions. -/
def ExportedCall.code : ExportedCall → Locked.Code Unit
  | .hook (.register line file) => Locked.registerLine line file
  | .hook (.track line file) => Locked.trackExecution line file
  | .hook .reset => Locked.reset
  | .hook .percentage => do
    let _ ← Locked.getCoveragePercentage
  | .hook (.print timestamp) => Locked.writeStats timestamp
  | .registeredCount => do
    let _ ← Locked.getRegisteredCount
  | .executedCount => do
    let _ ← Locked.getExecutedCount

/-- A run of the threads of a process. -/
def exported {τ : Type} [DecidableEq τ] (ms : List (Move τ ExportedCall)) :
    LockConfig τ TrackerLock Process Unit :=
  .run (fun _ call _ ↦ call.code) (.start .new fun _ ↦ ()) ms

/-! ## No deadlock -/

section Order

open LockProgram

theorem rank_lt_two (m : TrackerLock) : m.rank < 2 := by
  rcases m with _ | _ <;> decide

/-- One mutex, taken while none is held. -/
theorem ordered_single {α : Type} {m : TrackerLock} (p : Program Process α) :
    (holding m (ofProgram p) : Locked.Code α).Ordered TrackerLock.rank ∅ ∅ :=
  Ordered.holding (by simp) (ordered_ofProgram p)

/-- Both mutexes, in their order. -/
theorem ordered_both {α : Type} {p : Locked.Code α}
    (hp : p.Ordered TrackerLock.rank {.executedLines, .registeredLines}
      {.executedLines, .registeredLines}) :
    (holding .registeredLines (holding .executedLines p) : Locked.Code α).Ordered TrackerLock.rank
      ∅ ∅ :=
  Ordered.holding (by simp) (Ordered.holding (by decide) hp)

theorem ordered_code (call : ExportedCall) : call.code.Ordered TrackerLock.rank ∅ ∅ := by
  rcases call with (⟨line, file⟩ | ⟨line, file⟩ | _ | _ | ⟨timestamp⟩) | _ | _
  · exact ordered_single _
  · exact ordered_single _
  · exact (ordered_single _).bind fun _ ↦ (ordered_single _).bind fun _ _ _ ↦ rfl
  · refine Ordered.bind (p := Locked.getCoveragePercentage) ?_ fun _ ↦ rfl
    exact ordered_both fun _ _ _ ↦ rfl
  · refine (ordered_ofProgram _).bind fun written ↦ ?_
    rcases written with _ | _
    · exact ordered_both fun _ _ _ _ _ _ _ ↦ rfl
    · rfl
  · exact (ordered_single _).bind fun _ ↦ rfl
  · exact (ordered_single _).bind fun _ ↦ rfl

/-- **No deadlock.** In no run do threads wait for each other in a circle, and behind every thread
that waits there is one that does not. -/
theorem exported_no_deadlock {τ : Type} [DecidableEq τ] (ms : List (Move τ ExportedCall)) (t : τ) :
    ¬Relation.TransGen (exported ms).Waits t t ∧
      ∃ u, Relation.ReflTransGen (exported ms).Waits t u ∧ ∀ v, ¬(exported ms).Waits u v := by
  have hsound : (exported ms).OrderSound TrackerLock.rank :=
    (LockConfig.orderSound_start _ _).run (fun _ call _ ↦ ordered_code call) ms
  exact ⟨hsound.not_transGen_waits t, hsound.exists_unblocked rank_lt_two t⟩

end Order

/-! ## Every run is a run of `hooks` -/

section Refine

open LockProgram

/-- What a mutex protects. -/
def TrackerLock.Same : TrackerLock → Process → Process → Prop
  | .registeredLines, s, s' => s'.registeredLines = s.registeredLines
  | .executedLines, s, s' => s'.executedLines = s.executedLines

theorem protects_same : Protects TrackerLock.Same where
  refl m s := by rcases m with _ | _ <;> rfl
  trans {m _ _ _} h h' := by rcases m with _ | _ <;> exact Eq.trans h' h

/-- The process shows what the tracker of `hooks` has recorded. -/
structure Shows (s : Process) (a : Tracked) : Prop where
  tracker : a.toUnsafeCoverageTracker = s.toUnsafeCoverageTracker
  percentages : s.percentages
    = a.computed.map fun c ↦ percentageOf c.registered.card c.executed.card
  written : s.written = a.reports.map Report.text

/-- Both make the same change to the tracker, and show nothing new. -/
theorem Shows.update {s s' : Process} {a a' : Tracked} (h : Shows s a)
    (f : UnsafeCoverageTracker → UnsafeCoverageTracker)
    (hs : s'.toUnsafeCoverageTracker = f s.toUnsafeCoverageTracker)
    (ha : a'.toUnsafeCoverageTracker = f a.toUnsafeCoverageTracker)
    (hpercentages : s'.percentages = s.percentages) (hcomputed : a'.computed = a.computed)
    (hwritten : s'.written = s.written) (hreports : a'.reports = a.reports) : Shows s' a' where
  tracker := by rw [hs, ha, h.tracker]
  percentages := by rw [hpercentages, hcomputed, h.percentages]
  written := by rw [hwritten, hreports, h.written]

/-- The locks of `get_coverage_percentage` and `write_stats`, while they hold both. -/
def bothLocks : Finset TrackerLock := insert .executedLines (insert .registeredLines ∅)

theorem sameUnder_bothLocks {s s' : Process} (h : SameUnder TrackerLock.Same bothLocks s s') :
    s'.registeredLines = s.registeredLines ∧ s'.executedLines = s.executedLines :=
  ⟨h .registeredLines (by decide), h .executedLines (by decide)⟩

/-- While both locks are held, nobody else may change anything. -/
theorem notMem_bothLocks {P : Prop} (m : TrackerLock) (hm : m ∉ bothLocks) : P := by
  rcases m with _ | _ <;> exact absurd hm (by decide)

variable {s : Process} {τ : Type} {t : τ}

/-- One locked set is changed in one step. -/
theorem refines_locked {m : TrackerLock} {f : Process → Process} {g : Tracked → Tracked}
    (hframe : ∀ s, ∀ m' ∉ (insert m ∅ : Finset TrackerLock), TrackerLock.Same m' s (f s))
    (hrel : ∀ s a, Shows s a → Shows (f s) (g a)) :
    (holding m (ofProgram (.store f)) : Locked.Code Unit).Refines TrackerLock.Same Shows ∅
      (fun _ _ _ ↦ True) ∅ (.store g) s :=
  Refines.holding protects_same (P := fun _ _ _ ↦ True) (by simp)
    (fun _ _ ↦ Refines.rmw hframe hrel fun _ _ _ _ _ _ ↦ trivial) fun _ _ _ _ _ _ ↦ trivial

theorem same_of_notMem_registered {s s' : Process} (h : s'.executedLines = s.executedLines) :
    ∀ m ∉ (insert .registeredLines ∅ : Finset TrackerLock), TrackerLock.Same m s s' := by
  intro m hm
  rcases m with _ | _
  · exact absurd (Finset.mem_insert_self _ _) hm
  · exact h

theorem same_of_notMem_executed {s s' : Process} (h : s'.registeredLines = s.registeredLines) :
    ∀ m ∉ (insert .executedLines ∅ : Finset TrackerLock), TrackerLock.Same m s s' := by
  intro m hm
  rcases m with _ | _
  · exact h
  · exact absurd (Finset.mem_insert_self _ _) hm

/-- A step outside of the critical sections. -/
theorem refines_unlocked {f : Process → Process} {g : Tracked → Tracked}
    (hframe : ∀ s m, TrackerLock.Same m s (f s)) (hrel : ∀ s a, Shows s a → Shows (f s) (g a)) :
    (ofProgram (.store f) : Locked.Code Unit).Refines TrackerLock.Same Shows ∅
      (fun _ _ _ ↦ True) ∅ (.store g) s :=
  Refines.rmw (fun s m _ ↦ hframe s m) hrel fun _ _ _ _ _ _ ↦ trivial

theorem refines_reset : Locked.reset.Refines TrackerLock.Same Shows ∅ (fun _ _ _ ↦ True) ∅
    resetUnsafeCoverageStats s := by
  refine Refines.bind (P := fun _ _ _ ↦ True) protects_same (refines_locked
    (fun _ ↦ same_of_notMem_registered rfl) fun s a h ↦ ?_) fun _ _ _ _ ↦ ?_
  · exact h.update ({ · with registeredLines := ∅ }) rfl rfl rfl rfl rfl rfl
  refine Refines.bind (P := fun _ _ _ ↦ True) protects_same (refines_locked
    (fun _ ↦ same_of_notMem_executed rfl) fun s a h ↦ ?_) fun _ _ _ _ ↦ ?_
  · exact h.update ({ · with executedLines := ∅ }) rfl rfl rfl rfl rfl rfl
  refine Refines.bind (P := fun _ _ _ ↦ True) protects_same (refines_unlocked
    (fun s m ↦ ?_) fun s a h ↦ ?_) fun _ _ _ _ ↦ ?_
  · rcases m with _ | _ <;> rfl
  · exact h.update ({ · with statsWritten := false }) rfl rfl rfl rfl rfl rfl
  refine refines_unlocked (fun s m ↦ ?_) fun s a h ↦ ?_
  · rcases m with _ | _ <;> rfl
  · exact h.update ({ · with runCounter := 0 }) rfl rfl rfl rfl rfl rfl

/-- The sizes are loaded one after the other, and belong to one moment. -/
theorem refines_computeCoverage :
    Locked.computeCoverage.Refines TrackerLock.Same Shows bothLocks
      (fun r c s₁ ↦ r = (c.registeredLines.card, c.executedLines.card, c.getCoveragePercentage) ∧
        c.registeredLines = s₁.registeredLines ∧ c.executedLines = s₁.executedLines)
      bothLocks lockAndCount s := by
  refine Refines.silent protects_same (Refines.silent_load protects_same fun s₁ s₂ h ↦
    congrArg Finset.card (sameUnder_bothLocks h).1) fun registeredCount s₁ h₁ ↦ ?_
  refine Refines.silent protects_same (Refines.silent_load protects_same fun s₁ s₂ h ↦
    congrArg Finset.card (sameUnder_bothLocks h).2) fun executedCount s₂ h₂ ↦ ?_
  obtain ⟨h₁, rfl⟩ := h₁
  obtain ⟨h₂, rfl⟩ := h₂
  intro s₃ h₃
  have hregistered : s₃.registeredLines = s.registeredLines :=
    (sameUnder_bothLocks h₃).1.trans ((sameUnder_bothLocks h₂).1.trans (sameUnder_bothLocks h₁).1)
  have hexecuted : s₃.executedLines = s₁.executedLines :=
    (sameUnder_bothLocks h₃).2.trans (sameUnder_bothLocks h₂).2
  refine ⟨fun m hm ↦ notMem_bothLocks m hm, .inr ⟨_, _, rfl, fun a ha ↦ ⟨⟨ha.tracker, ?_, ha.written⟩,
    Refines.done fun s₄ h₄ ↦ ?_⟩⟩⟩
  · have hsets : a.registeredLines = s₃.registeredLines ∧ a.executedLines = s₃.executedLines :=
      ⟨congrArg UnsafeCoverageTracker.registeredLines ha.tracker,
        congrArg UnsafeCoverageTracker.executedLines ha.tracker⟩
    rw [List.map_append, ← ha.percentages, ← hregistered, ← hexecuted, ← hsets.1, ← hsets.2]
    rfl
  · dsimp only
    rw [ha.tracker, ← hregistered, ← hexecuted]
    exact ⟨rfl, (sameUnder_bothLocks h₄).1.symm, (sameUnder_bothLocks h₄).2.symm⟩

/-- The report is written of what has been counted, since both locks are still held. -/
theorem refines_writeReport {n timestamp : ℕ} {c : UnsafeCoverageTracker}
    (hregistered : c.registeredLines = s.registeredLines)
    (hexecuted : c.executedLines = s.executedLines) :
    (Locked.writeDetailedStats n c.registeredLines.card c.executedLines.card
        c.getCoveragePercentage timestamp).Refines TrackerLock.Same Shows bothLocks
      (fun _ _ _ ↦ True) bothLocks (.store fun a ↦ { a with
        reports := a.reports ++ [⟨n, c.registeredLines, c.executedLines, timestamp⟩] }) s := by
  refine Refines.silent protects_same (Refines.silent_load protects_same fun s₁ s₂ h ↦
    (sameUnder_bothLocks h).1) fun registered s₁ h₁ ↦ ?_
  refine Refines.silent protects_same (Refines.silent_load protects_same fun s₁ s₂ h ↦
    (sameUnder_bothLocks h).2) fun executed s₂ h₂ ↦ ?_
  obtain ⟨h₁, rfl⟩ := h₁
  obtain ⟨-, rfl⟩ := h₂
  refine Refines.rmw (fun _ m hm ↦ notMem_bothLocks m hm) (fun s₃ a ha ↦ ?_)
    fun _ _ _ _ _ _ ↦ trivial
  refine ⟨ha.tracker, ha.percentages, ?_⟩
  rw [List.map_append, ← ha.written, ← hregistered, (sameUnder_bothLocks h₁).2, ← hexecuted]
  rfl

theorem refines_getCoveragePercentage :
    Locked.getCoveragePercentage.Refines TrackerLock.Same Shows ∅ (fun _ _ _ ↦ True) ∅
      getUnsafeCoveragePercentage s := by
  refine Refines.holding protects_same (P := fun _ _ _ ↦ True) (by simp) (fun s₂ _ ↦ ?_)
    fun _ _ _ _ _ _ ↦ trivial
  refine Refines.holding protects_same (P := fun _ _ _ ↦ True) (by decide) (fun s₃ _ ↦ ?_)
    fun _ _ _ _ _ _ ↦ trivial
  exact Refines.bind protects_same refines_computeCoverage fun _ _ _ _ ↦
    Refines.done fun _ _ ↦ trivial

theorem refines_writeStats (timestamp : ℕ) :
    (Locked.writeStats timestamp).Refines TrackerLock.Same Shows ∅ (fun _ _ _ ↦ True) ∅
      (printUnsafeCoverageStats timestamp) s := by
  refine Refines.bind (P := fun b b' _ ↦ b = b') protects_same (Refines.rmw (fun s m _ ↦ ?_)
    (fun s a h ↦ ?_) fun s₁ a _ _ h _ ↦ ?_) fun b b' s₁ hb ↦ ?_
  · rcases m with _ | _ <;> rfl
  · exact h.update ({ · with statsWritten := true }) rfl rfl rfl rfl rfl rfl
  · exact (congrArg UnsafeCoverageTracker.statsWritten h.tracker).symm
  obtain rfl := hb
  rcases b with _ | _
  · refine Refines.holding protects_same (P := fun _ _ _ ↦ True) (by simp) (fun s₂ _ ↦ ?_)
      fun _ _ _ _ _ _ ↦ trivial
    refine Refines.holding protects_same (P := fun _ _ _ ↦ True) (by decide) (fun s₃ _ ↦ ?_)
      fun _ _ _ _ _ _ ↦ trivial
    refine Refines.bind protects_same refines_computeCoverage fun r c s₄ hr ↦ ?_
    obtain ⟨rfl, hregistered, hexecuted⟩ := hr
    refine Refines.bind (P := fun n n' s₅ ↦ n = n' ∧ c.registeredLines = s₅.registeredLines ∧
        c.executedLines = s₅.executedLines) protects_same (Refines.rmw
      (fun _ m hm ↦ notMem_bothLocks m hm) (fun s a h ↦ ?_) fun s₅ a s₆ h₅ h h₆ ↦ ?_)
      fun n n' s₅ hn ↦ ?_
    · refine ⟨?_, h.percentages, h.written⟩
      dsimp only
      rw [h.tracker]
    · refine ⟨?_, ?_, ?_⟩
      · rw [h.tracker]
      · rw [hregistered, (sameUnder_bothLocks h₆).1, ← (sameUnder_bothLocks h₅).1]
      · rw [hexecuted, (sameUnder_bothLocks h₆).2, ← (sameUnder_bothLocks h₅).2]
    · obtain ⟨rfl, hregistered, hexecuted⟩ := hn
      exact refines_writeReport hregistered hexecuted
  · exact Refines.done fun _ _ ↦ trivial

/-- A call of `hooks`, if it is one of those. -/
def ExportedCall.abstract : ExportedCall → Option CoverageCall
  | .hook call => some call
  | .registeredCount => none
  | .executedCount => none

/-- A function that only counts one of the sets does nothing that shows. -/
theorem refines_count {m : TrackerLock} {f : Process → ℕ} :
    (holding m (ofProgram (.load f)) >>= fun _ ↦ .done () : Locked.Code Unit).Refines
      TrackerLock.Same Shows ∅ (fun _ _ _ ↦ True) ∅ (.done ()) s := by
  refine Refines.silent (R := fun _ _ ↦ True) protects_same (Refines.holding protects_same
    (P := fun _ _ _ ↦ True) (by simp) (fun s₁ _ ↦ ?_) fun _ _ _ _ _ _ ↦ trivial)
    fun _ _ _ ↦ Refines.done fun _ _ ↦ trivial
  exact Refines.silent_rmw (R := fun _ _ ↦ True) (fun s m _ ↦ protects_same.refl m s)
    (fun _ _ h ↦ h) fun _ _ _ _ ↦ trivial

theorem refines_code (call : ExportedCall) :
    call.code.Refines TrackerLock.Same Shows ∅ (fun _ _ _ ↦ True) ∅
      (hooks.counterpart ExportedCall.abstract t call ()) s := by
  rcases call with (⟨line, file⟩ | ⟨line, file⟩ | _ | _ | ⟨timestamp⟩) | _ | _
  · exact refines_locked (fun _ ↦ same_of_notMem_registered rfl) fun s a h ↦
      h.update (·.registerLine line file) rfl rfl rfl rfl rfl rfl
  · exact refines_locked (fun _ ↦ same_of_notMem_executed rfl) fun s a h ↦
      h.update (·.trackExecution line file) rfl rfl rfl rfl rfl rfl
  · exact refines_reset
  · exact Refines.bind protects_same refines_getCoveragePercentage fun _ _ _ _ ↦
      Refines.done fun _ _ ↦ trivial
  · exact refines_writeStats timestamp
  · exact refines_count
  · exact refines_count

end Refine

section Runs

variable {τ : Type} [DecidableEq τ]

/-- The calls of the exported functions that begin, with their threads. A thread that is inside a call
cannot begin another. -/
def begunCalls (ms : List (Move τ ExportedCall)) : List (τ × ExportedCall) :=
  LockConfig.accepted (fun _ call _ ↦ call.code) (.start .new fun _ ↦ ()) ms

/-- A run of the exported functions is, step by step, one of `hooks`. -/
theorem exists_matched (ms : List (Move τ ExportedCall)) :
    ∃ ms' : List (Move τ CoverageCall),
      Matched TrackerLock.Same Shows (fun _ _ ↦ True) (exported ms) (hooks.run launch ms') ∧
      (ms'.filterMap (Move.counterpart some)
          = (begunCalls ms).filterMap (Move.abstractCall ExportedCall.abstract) ∧
        hooks.accepted launch ms' = (ms'.filterMap (Move.counterpart some)).map Prod.snd) ∧
      ∀ pre', pre' <+: ms' → ∃ pre, pre <+: ms ∧
        Matched TrackerLock.Same Shows (fun _ _ ↦ True) (exported pre) (hooks.run launch pre') := by
  have hstart : Matched TrackerLock.Same Shows (fun (_ _ : Unit) ↦ True)
      (.start .new fun _ ↦ () : LockConfig τ TrackerLock Process Unit) launch :=
    Matched.start ⟨rfl, rfl, rfl⟩ trivial
  have hcode : ∀ (t : τ) (call : ExportedCall) (_ l' : Unit) (s : Process), True →
      call.code.Refines TrackerLock.Same Shows ∅ (fun _ _ _ ↦ True) ∅
        (hooks.counterpart ExportedCall.abstract t call l') s :=
    fun t call _ _ s _ ↦ refines_code call
  exact hstart.run protects_same (fun _ _ _ _ ↦ rfl) hcode ms

/-- **The locks make the critical sections atomic.** Every run of the exported functions shows what a
run of `hooks` records, in which the threads begin the same calls in the same order, but for those
that only count a set; and the threads that rest in it rest in the other. At every moment of that
other run, the tracker is as it was at some moment of the first. -/
theorem exported_refines_hooks (ms : List (Move τ ExportedCall)) :
    ∃ ms' : List (Move τ CoverageCall),
      Shows (exported ms).shared (hooks.run launch ms').shared ∧
      (∀ t, (exported ms).thread t = ⟨.done (), []⟩ → (hooks.run launch ms').Idle t ()) ∧
      (ms'.filterMap (Move.counterpart some)
          = (begunCalls ms).filterMap (Move.abstractCall ExportedCall.abstract) ∧
        hooks.accepted launch ms' = (ms'.filterMap (Move.counterpart some)).map Prod.snd) ∧
      ∀ pre', pre' <+: ms' → ∃ pre, pre <+: ms ∧
        Shows (exported pre).shared (hooks.run launch pre').shared := by
  obtain ⟨ms', hmatched, hcalls, hbefore⟩ := exists_matched ms
  refine ⟨ms', hmatched.shared, fun t ht ↦ ?_, hcalls, fun pre' hpre' ↦ ?_⟩
  · obtain ⟨held, -, -, hrefines⟩ := hmatched.thread t
    rw [ht] at hrefines
    obtain ⟨-, _, hidle, -⟩ := hrefines _ (protects_same.sameUnder_refl held _)
    exact hidle
  · obtain ⟨pre, hpre, hmatched⟩ := hbefore pre' hpre'
    exact ⟨pre, hpre, hmatched.shared⟩

/-! ## What is shown -/

/-- Whether the call is a reset. -/
def CoverageCall.isReset : CoverageCall → Bool
  | .reset => true
  | _ => false

/-- How often a thread is made to reset the tracker. -/
def resets (ms : List (Move τ ExportedCall)) : ℕ :=
  (ms.filterMap (Move.counterpart ExportedCall.abstract)).countP (·.2.isReset)

/-- What is computed in a step is about the sets before it. -/
def ComputesNow (s s' : Tracked) : Prop :=
  ∀ c ∈ s'.computed, c ∈ s.computed ∨
    c.registered = s.registeredLines ∧ c.executed = s.executedLines

omit [DecidableEq τ] in
theorem steps_computesNow (call : CoverageCall) :
    call.code.Steps (fun _ _ ↦ True) ComputesNow := by
  have hcount : lockAndCount.Steps (fun _ _ ↦ True) ComputesNow := by
    refine Program.steps_rmw fun s _ c hc ↦ ?_
    rcases List.mem_append.mp hc with hc | hc
    · exact .inl hc
    · rw [List.mem_singleton.mp hc]
      exact .inr ⟨rfl, rfl⟩
  rcases call with ⟨line, file⟩ | ⟨line, file⟩ | _ | _ | ⟨timestamp⟩
  · exact Program.steps_rmw fun _ _ _ hc ↦ .inl hc
  · exact Program.steps_rmw fun _ _ _ hc ↦ .inl hc
  · refine (Program.steps_rmw fun _ _ _ hc ↦ .inl hc).bind fun _ ↦ ?_
    refine (Program.steps_rmw fun _ _ _ hc ↦ .inl hc).bind fun _ ↦ ?_
    refine (Program.steps_rmw fun _ _ _ hc ↦ .inl hc).bind fun _ ↦ ?_
    exact Program.steps_rmw fun _ _ _ hc ↦ .inl hc
  · exact (hcount.bind fun _ ↦ Program.steps_done _).bind fun _ ↦ Program.steps_done _
  · refine (Program.steps_rmw fun _ _ _ hc ↦ .inl hc).bind fun written ↦ ?_
    rcases written with _ | _
    · refine hcount.bind fun c ↦ (Program.steps_rmw fun _ _ _ hc ↦ .inl hc).bind fun _ ↦ ?_
      exact Program.steps_rmw fun _ _ _ hc ↦ .inl hc
    · exact Program.steps_done _

/-- Every computation counted the sets as they were at some moment. -/
theorem exists_moment (ms : List (Move τ CoverageCall)) :
    ∀ c ∈ (hooks.run launch ms).shared.computed, ∃ pre, pre <+: ms ∧
      c.registered = (hooks.run launch pre).shared.registeredLines ∧
      c.executed = (hooks.run launch pre).shared.executedLines := by
  induction ms using List.reverseRecOn with
  | nil => exact fun c hc ↦ absurd hc List.not_mem_nil
  | append_singleton ms m ih =>
    intro c hc
    have hstep : ComputesNow (hooks.run launch ms).shared (hooks.run launch (ms ++ [m])).shared :=
      hooks.run_steps (fun s c hc ↦ .inl hc) (fun _ call _ ↦ steps_computesNow call)
        (fun _ ↦ Program.steps_done _) (fun _ _ _ _ ↦ trivial) List.prefix_rfl
    rcases hstep c hc with hc | hnow
    · obtain ⟨pre, hpre, h⟩ := ih c hc
      exact ⟨pre, hpre.trans (List.prefix_append _ _), h⟩
    · exact ⟨ms, List.prefix_append _ _, hnow⟩

/-- The flag of the report. -/
def reportFlag (s : Tracked) : Bool := s.statsWritten

/-- The number of reports. -/
def reportCount (s : Tracked) : ℕ := s.reports.length

omit [DecidableEq τ] in
/-- Who takes the flag writes a report, and nobody else does. -/
theorem owes_code (call : CoverageCall) :
    call.code.Owes reportFlag reportCount (fun _ m ↦ m = 0) 0 := by
  have hcount : ∀ {n}, lockAndCount.Owes reportFlag reportCount (fun _ m ↦ m = n) n :=
    Program.owes_keep (fun _ ↦ takes_of_eq _ rfl) fun _ ↦ rfl
  rcases call with ⟨line, file⟩ | ⟨line, file⟩ | _ | _ | ⟨timestamp⟩
  · exact Program.owes_keep (fun _ ↦ takes_of_eq _ rfl) fun _ ↦ rfl
  · exact Program.owes_keep (fun _ ↦ takes_of_eq _ rfl) fun _ ↦ rfl
  · refine (Program.owes_keep (fun _ ↦ takes_of_eq _ rfl) fun _ ↦ rfl).bind fun _ m hm ↦ ?_
    refine (Program.owes_keep (fun _ ↦ takes_of_eq _ rfl) fun _ ↦ rfl).bind fun _ m' hm' ↦ ?_
    refine (Program.owes_keep (fun s ↦ ?_) fun _ ↦ rfl).bind fun _ m'' hm'' ↦ ?_
    · simp [takes, reportFlag]
    · obtain rfl := hm''.trans (hm'.trans hm)
      exact Program.owes_keep (fun _ ↦ takes_of_eq _ rfl) fun _ ↦ rfl
  · exact Program.Owes.bind (P := fun _ m ↦ m = 0) (hcount.bind fun _ _ h ↦ h) fun _ _ h ↦ h
  · refine Program.Owes.bind (P := fun b m ↦ m = (!b).toNat) (Program.owes_rmw fun s ↦ ?_)
      fun written m hm ↦ ?_
    · refine ⟨(!s.statsWritten).toNat, ?_, rfl⟩
      simp [takes, reportFlag, reportCount, add_comm]
    rcases written with _ | _
    · refine hcount.bind fun c m' hm' ↦ ?_
      refine (Program.owes_keep (fun _ ↦ takes_of_eq _ rfl) fun _ ↦ rfl).bind fun runNum m'' hm'' ↦ ?_
      obtain rfl : m'' = 1 := hm''.trans (hm'.trans hm)
      refine Program.owes_rmw fun s ↦ ⟨0, ?_, rfl⟩
      simp [takes, reportFlag, reportCount, add_comm]
    · exact hm

omit [DecidableEq τ] in
/-- Only a reset gives the flag back, and only once. -/
theorem dropsAtMost_code (call : CoverageCall) :
    call.code.DropsAtMost reportFlag call.isReset.toNat := by
  have hcount : lockAndCount.Steps (fun _ _ ↦ True)
      fun s s' ↦ reportFlag s = true → reportFlag s' = true := Program.steps_rmw fun _ _ h ↦ h
  rcases call with ⟨line, file⟩ | ⟨line, file⟩ | _ | _ | ⟨timestamp⟩
  · exact Program.Steps.dropsAtMost (Program.steps_rmw fun _ _ h ↦ h)
  · exact Program.Steps.dropsAtMost (Program.steps_rmw fun _ _ h ↦ h)
  · have hkeep : ∀ f : Tracked → Tracked, (∀ s, (f s).statsWritten = s.statsWritten) →
        (Program.store f).DropsAtMost reportFlag 0 := fun f hf ↦
      Program.Steps.dropsAtMost (Program.steps_rmw fun s _ h ↦ (hf s).trans h)
    refine (hkeep _ fun _ ↦ rfl).bind (m := 1) fun _ ↦ ?_
    refine (hkeep _ fun _ ↦ rfl).bind (m := 1) fun _ ↦ ?_
    exact (Program.dropsAtMost_rmw _).bind (m := 0) fun _ ↦ hkeep _ fun _ ↦ rfl
  · exact Program.Steps.dropsAtMost
      ((hcount.bind fun _ ↦ Program.steps_done _).bind fun _ ↦ Program.steps_done _)
  · refine Program.Steps.dropsAtMost ((Program.steps_rmw fun _ _ _ ↦ rfl).bind fun written ↦ ?_)
    rcases written with _ | _
    · refine hcount.bind fun c ↦ (Program.steps_rmw fun _ _ h ↦ h).bind fun _ ↦ ?_
      exact Program.steps_rmw fun _ _ h ↦ h
    · exact Program.steps_done _

omit [DecidableEq τ] in
/-- The resets among the calls. -/
theorem cost_isReset (ms : List (Move τ CoverageCall)) :
    Service.cost (fun call : CoverageCall ↦ call.isReset.toNat) ms
      = (ms.filterMap (Move.counterpart some)).countP (·.2.isReset) := by
  induction ms with
  | nil => rfl
  | cons m ms ih =>
    rcases m with ⟨t, k⟩ | t
    · rw [Service.cost, ih, List.filterMap_cons]
      rcases hreset : k.isReset with _ | _ <;> simp [Move.counterpart, hreset, add_comm]
    · rw [Service.cost, ih]
      rfl

/-- There is at most one report more than there are resets. -/
theorem reports_le [Fintype τ] (ms : List (Move τ CoverageCall)) :
    (hooks.run launch ms).shared.reports.length
      ≤ 1 + (ms.filterMap (Move.counterpart some)).countP (·.2.isReset) := by
  have hbalance : ∃ debt : τ → ℕ,
      (∀ t, ((hooks.run launch ms).thread t).Owes reportFlag reportCount (fun _ m ↦ m = 0) (debt t)) ∧
      ∑ t, debt t + reportCount (hooks.run launch ms).shared + 0
        = ∑ _t : τ, 0 + 0 + (reportFlag (hooks.run launch ms).shared).toNat
          + hooks.dropped reportFlag launch ms :=
    hooks.run_balance (fun _ call _ ↦ owes_code call) (c := launch) (fun _ ↦ rfl) ms
  obtain ⟨debt, -, hsum⟩ := hbalance
  have hdropped : hooks.dropped reportFlag launch ms
      ≤ Service.cost (fun call : CoverageCall ↦ call.isReset.toNat) ms :=
    hooks.dropped_le (fun _ call _ ↦ dropsAtMost_code call) (c := launch) (fun _ ↦ trivial) ms
  have hflag : (reportFlag (hooks.run launch ms).shared).toNat ≤ 1 := Bool.toNat_le _
  rw [cost_isReset] at hdropped
  simp only [reportCount, Finset.sum_const_zero] at hsum
  omega

/-- **What a process shows.** Every report in it, with its two lists, its two numbers and its coverage,
is about the sets as they were at one moment, and so is every coverage that is computed. There is at
most one report more than there are resets. -/
theorem exported_shows_moments [Fintype τ] (ms : List (Move τ ExportedCall)) :
    (∀ text ∈ (exported ms).shared.written, ∃ pre runNum timestamp, pre <+: ms ∧
      text = Report.text ⟨runNum, (exported pre).shared.registeredLines,
        (exported pre).shared.executedLines, timestamp⟩) ∧
    (∀ coverage ∈ (exported ms).shared.percentages, ∃ pre, pre <+: ms ∧
      coverage = (exported pre).shared.getCoveragePercentage) ∧
    (exported ms).shared.written.length ≤ 1 + resets ms := by
  obtain ⟨ms', hmatched, ⟨hcalls, -⟩, hbefore⟩ := exists_matched ms
  have hshows := hmatched.shared
  have hmoment : ∀ c ∈ (hooks.run launch ms').shared.computed, ∃ pre, pre <+: ms ∧
      c.registered = (exported pre).shared.registeredLines ∧
      c.executed = (exported pre).shared.executedLines := by
    intro c hc
    obtain ⟨pre', hpre', hregistered, hexecuted⟩ := exists_moment ms' c hc
    obtain ⟨pre, hpre, hthen⟩ := hbefore pre' hpre'
    refine ⟨pre, hpre, ?_, ?_⟩
    · rw [hregistered, hthen.shared.tracker]
    · rw [hexecuted, hthen.shared.tracker]
  refine ⟨fun text htext ↦ ?_, fun coverage hcoverage ↦ ?_, ?_⟩
  · rw [hshows.written] at htext
    obtain ⟨r, hr, rfl⟩ := List.mem_map.mp htext
    obtain ⟨c, hc, hregistered, hexecuted⟩ := (faithful_run ms').reported r hr
    obtain ⟨pre, hpre, hregistered', hexecuted'⟩ := hmoment c hc
    refine ⟨pre, r.runNum, r.timestamp, hpre, ?_⟩
    rw [← hregistered', ← hexecuted', hregistered, hexecuted]
  · rw [hshows.percentages] at hcoverage
    obtain ⟨c, hc, rfl⟩ := List.mem_map.mp hcoverage
    obtain ⟨pre, hpre, hregistered, hexecuted⟩ := hmoment c hc
    refine ⟨pre, hpre, ?_⟩
    rw [getCoveragePercentage_eq, hregistered, hexecuted]
  · rw [hshows.written, List.length_map]
    have hsublist := LockConfig.accepted_abstract_sublist (fun _ call _ ↦ call.code)
      (.start .new fun _ ↦ ()) ms ExportedCall.abstract
    rw [← begunCalls, ← hcalls] at hsublist
    exact (reports_le ms').trans (Nat.add_le_add_left hsublist.countP_le 1)

end Runs

end UnsafePerf.Coverage
