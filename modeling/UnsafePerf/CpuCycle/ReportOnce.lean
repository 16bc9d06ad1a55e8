import UnsafePerf.Concurrency.Once
import UnsafePerf.CpuCycle.LiveReport

/-!
# The report is written exactly once

`print_cpu_cycle_stats` can be called by any thread at any time, and `final_cleanup` calls it when the
program exits. `stats_written` decides which of these calls writes the report: the one that takes the
flag with its `compare_exchange`. The hooks do not touch the flag, and nobody gives it back.

So at most one report is written, whatever runs at the same time; and once a call has been made and
all threads have come to rest, it has been written.
-/

open Concurrency

namespace UnsafePerf.CpuCycle

variable {τ : Type} [DecidableEq τ]

/-- The flag. -/
def written (s : Shared τ) : Bool := s.statsWritten

/-- No report is in the registry: the threads keep theirs. -/
def reportsShared (_ : Shared τ) : ℕ := 0

/-- The step leaves the flag alone. -/
def FlagKept (s s' : Shared τ) : Prop :=
  written s' = written s ∧ reportsShared s' = reportsShared s

/-- The hooks leave the flag alone. -/
theorem registryKeeps_flag : RegistryKeeps (fun _ _ ↦ True) (FlagKept (τ := τ)) where
  refl _ := ⟨rfl, rfl⟩
  storeId _ := Program.steps_rmw fun _ _ ↦ ⟨rfl, rfl⟩
  storeStartTsc _ := Program.steps_rmw fun _ _ ↦ ⟨rfl, rfl⟩
  storeLastKnownTsc _ := Program.steps_rmw fun _ _ ↦ ⟨rfl, rfl⟩
  storeActive := Program.steps_rmw fun _ _ ↦ ⟨rfl, rfl⟩
  storeTerminated := Program.steps_rmw fun _ _ ↦ ⟨rfl, rfl⟩
  compareExchangeState := by
    refine Program.steps_rmw fun s _ ↦ ?_
    split <;> exact ⟨rfl, rfl⟩
  fetchAddNextSlot := by
    refine Program.steps_rmw fun s _ ↦ ?_
    dsimp only
    split <;> exact ⟨rfl, rfl⟩
  fetchSubNextSlot := Program.steps_rmw fun _ _ ↦ ⟨rfl, rfl⟩
  resetCounter _ := Program.steps_rmw fun _ _ ↦ ⟨rfl, rfl⟩
  fetchAddCounter _ _ := Program.steps_rmw fun _ _ ↦ ⟨rfl, rfl⟩

/-- The flag stays taken. -/
theorem written_reporting (t : τ) (call : ReportingCall) (w : Reporter) :
    (reporting.code t call w).Steps (fun _ _ ↦ True)
      fun s s' ↦ written s = true → written s' = true := by
  rcases call with call | _
  · refine Program.Steps.bind ?_ fun _ ↦ Program.steps_done _
    exact (registryKeeps_flag.system call w.life).mono fun s s' h hs ↦ h.1.trans hs
  · have hcas : (compareExchangeWritten : Program (Shared τ) Bool).Steps (fun _ _ ↦ True)
        fun s s' ↦ written s = true → written s' = true := by
      refine Program.steps_rmw fun s _ hs ↦ ?_
      have hwritten : ¬s.statsWritten = false := ne_of_eq_of_ne hs (by simp)
      rw [if_neg hwritten]
      exact hs
    refine (hcas.bind fun b ↦ ?_).bind fun text ↦ ?_
    · rcases b with _ | _
      · exact Program.steps_done _
      · exact (readOnly_dumpStats.steps fun _ hs ↦ hs).bind fun _ ↦ Program.steps_done _
    · rcases text with _ | text <;> exact Program.steps_done _

/-- Who takes the flag writes a report, and nobody else does. -/
theorem owes_reporting (t : τ) (call : ReportingCall) (w : Reporter) :
    (reporting.code t call w).Owes written reportsShared
      (fun w' m ↦ m = w'.reports.length) w.reports.length := by
  rcases call with call | _
  · refine Program.Owes.bind (registryKeeps_flag.system call w.life).owes fun life m hm ↦ ?_
    exact hm
  · have hcas : (compareExchangeWritten : Program (Shared τ) Bool).Owes written reportsShared
        (fun b m ↦ m = w.reports.length + b.toNat) w.reports.length := by
      refine Program.owes_rmw fun s ↦ ?_
      by_cases hwritten : s.statsWritten = false
      · rw [if_pos hwritten]
        refine ⟨w.reports.length + 1, ?_, rfl⟩
        simp [takes, written, hwritten, reportsShared]
      · rw [if_neg hwritten]
        refine ⟨w.reports.length, ?_, rfl⟩
        rw [takes_of_eq _ rfl]
        rfl
    have hprint : (printCpuCycleStats : Program (Shared τ) _).Owes written reportsShared
        (fun text m ↦ m = w.reports.length + text.toList.length) w.reports.length := by
      refine hcas.bind fun b m hm ↦ ?_
      rcases b with _ | _
      · exact hm
      · refine Program.Owes.bind (readOnly_dumpStats.steps fun _ ↦ ⟨rfl, rfl⟩).owes fun text n hn ↦ ?_
        exact hn.trans hm
    refine hprint.bind fun text m hm ↦ ?_
    rcases text with _ | text
    · exact hm
    · rw [hm]
      exact (List.length_append ..).symm

/-- With its first step, a call leaves the flag taken. -/
theorem exists_first_step (t : τ) (w : Reporter) : ∃ update next,
    reporting.code t .print w = .atomic update next ∧ ∀ s, written (update s) = true := by
  refine ⟨_, _, rfl, fun s ↦ ?_⟩
  by_cases hwritten : s.statsWritten = false
  · simp only [if_pos hwritten]
    rfl
  · simp only [if_neg hwritten]
    exact Bool.eq_true_of_not_eq_false hwritten

section Runs

/-- From move to move, the flag stays taken. -/
theorem written_move (pre : List (Move τ ReportingCall)) (m : Move τ ReportingCall)
    (h : written (reporting.run startReporting pre).shared = true) :
    written (reporting.run startReporting (pre ++ [m])).shared = true :=
  reporting.run_steps (c := startReporting) (fun _ h ↦ h) written_reporting
    (fun _ ↦ Program.steps_done _) (fun _ _ _ _ ↦ trivial) List.prefix_rfl h

/-- A call that has been made has left the flag taken, or has its first step ahead. -/
theorem written_or_ahead {ms₀ : List (Move τ ReportingCall)} {t : τ} {w : Reporter}
    (hidle : (reporting.run startReporting ms₀).Idle t w) (ms : List (Move τ ReportingCall)) :
    written (reporting.run startReporting (ms₀ ++ .call t .print :: ms)).shared = true ∨
      (reporting.run startReporting (ms₀ ++ .call t .print :: ms)).thread t
        = reporting.code t .print w := by
  obtain ⟨update, next, hcode, hfirst⟩ := exists_first_step t w
  induction ms using List.reverseRecOn with
  | nil =>
    rw [Service.run_append_singleton, reporting.move_call .print hidle rfl]
    exact .inr (Function.update_self ..)
  | append_singleton ms m ih =>
    rw [← List.cons_append, ← List.append_assoc]
    rcases ih with htrue | hahead
    · exact .inl (written_move _ m htrue)
    · rw [Service.run_append_singleton]
      rw [hcode] at hahead ⊢
      generalize reporting.run startReporting (ms₀ ++ .call t .print :: ms) = d at hahead
      rcases m with ⟨u, k⟩ | u
      · refine .inr ?_
        rcases hu : d.thread u with l | ⟨update', next'⟩
        · have hut : t ≠ u := by
            rintro rfl
            exact absurd (hu.symm.trans hahead) (by simp)
          by_cases hall : reporting.allowed u k l d.shared = true
          · rw [reporting.move_call k hu hall]
            exact (Function.update_of_ne hut ..).trans hahead
          · rwa [reporting.move_call_refused k hu hall]
        · rwa [reporting.move_call_busy k hu]
      · by_cases hut : t = u
        · subst hut
          rw [reporting.move_step hahead]
          exact .inl (hfirst d.shared)
        · refine .inr ?_
          rcases hu : d.thread u with l | ⟨update', next'⟩
          · rwa [reporting.move_step_idle hu]
          · rw [reporting.move_step hu]
            exact (Function.update_of_ne hut ..).trans hahead

variable [Fintype τ]

/-- The balance of a run: the flag stands for the reports of all threads. -/
theorem exists_debt (ms : List (Move τ ReportingCall)) :
    ∃ debt : τ → ℕ,
      (∀ t w, (reporting.run startReporting ms).Idle t w → debt t = w.reports.length) ∧
      ∑ t, debt t = (written (reporting.run startReporting ms).shared).toNat := by
  have hstart : ∀ t, ((startReporting (τ := τ)).thread t).Owes written reportsShared
      (fun w' m ↦ m = w'.reports.length) ((fun _ ↦ 0 : τ → ℕ) t) := fun _ ↦ rfl
  obtain ⟨debt, hdebt, hsum⟩ := reporting.run_balance owes_reporting hstart ms
  have hdropped : reporting.dropped written startReporting ms = 0 :=
    reporting.dropped_eq_zero _ fun pre m _ ↦ written_move pre m
  refine ⟨debt, fun t w hidle ↦ ?_, ?_⟩
  · have h := hdebt t
    rwa [hidle] at h
  · have hflag : written (startReporting (τ := τ)).shared = false := rfl
    rw [hdropped, hflag] at hsum
    simpa [reportsShared] using hsum

/-- **The report is written exactly once.** In any interleaving, no thread has written two reports,
and no two threads have written one each. Once a call of `print_cpu_cycle_stats` has been made, and
all threads have come to rest, one of them has written the report. -/
theorem report_exactly_once (ms : List (Move τ ReportingCall)) :
    let c := reporting.run startReporting ms
    (∀ t w, c.Idle t w → w.reports.length ≤ 1) ∧
      (∀ t u w w', c.Idle t w → c.Idle u w' → w.reports ≠ [] → w'.reports ≠ [] → t = u) ∧
      ∀ ms₀ ms₁ t w, ms = ms₀ ++ .call t .print :: ms₁ →
        (reporting.run startReporting ms₀).Idle t w → (∀ u, ∃ w', c.Idle u w') →
        ∃ u w' text, c.Idle u w' ∧ w'.reports = [text] := by
  intro c
  obtain ⟨debt, hdebt, hsum⟩ := exists_debt ms
  have hle : ∑ t, debt t ≤ 1 := hsum.trans_le (Bool.toNat_le _)
  have hone : ∀ t, debt t ≤ 1 := fun t ↦
    (Finset.single_le_sum (fun _ _ ↦ Nat.zero_le _) (Finset.mem_univ t)).trans hle
  refine ⟨fun t w ht ↦ hdebt t w ht ▸ hone t, fun t u w w' ht hu hw hw' ↦ ?_, ?_⟩
  · by_contra hne
    have hpair : debt t + debt u ≤ ∑ t, debt t := by
      rw [← Finset.sum_pair hne]
      exact Finset.sum_le_sum_of_subset (Finset.subset_univ _)
    have htpos : 0 < debt t := hdebt t w ht ▸ List.length_pos_iff.mpr hw
    have hupos : 0 < debt u := hdebt u w' hu ▸ List.length_pos_iff.mpr hw'
    omega
  · rintro ms₀ ms₁ t w rfl hidle hrest
    obtain ⟨w', ht⟩ := hrest t
    have hwritten : written c.shared = true := by
      refine (written_or_ahead hidle ms₁).resolve_right fun hahead ↦ ?_
      obtain ⟨update, next, hcode, -⟩ := exists_first_step t w
      exact absurd (ht.symm.trans (hahead.trans hcode)) (by simp)
    have htotal : ∑ t, debt t = 1 := hsum.trans (by rw [hwritten]; rfl)
    obtain ⟨u, -, hu⟩ := Finset.exists_ne_zero_of_sum_ne_zero (htotal.trans_ne one_ne_zero)
    obtain ⟨wu, hwu⟩ := hrest u
    have hlength : wu.reports.length = 1 := by
      have := hone u
      rw [← hdebt u wu hwu]
      omega
    obtain ⟨text, htext⟩ := List.length_eq_one_iff.mp hlength
    exact ⟨u, wu, text, hwu, htext⟩

end Runs

end UnsafePerf.CpuCycle
