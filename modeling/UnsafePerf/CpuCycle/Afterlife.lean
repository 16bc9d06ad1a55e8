import UnsafePerf.CpuCycle.System

/-!
# Hooks after the cleanup

A thread is finished when it has executed `thread_cleanup`, which `thread_start_wrapper` calls
after the start routine has returned. Destructors of thread-local variables run later still, and
when they are instrumented they call hooks.

The cleanup marks the slot terminated, which puts it up for reuse, but it leaves the thread-local
variables as they are: the slot stays on record, the contexts stay on the stack, and the top context
keeps its start. So a hook of a finished thread goes on writing to the slot, whoever owns it by
then, and charges again from the start the cleanup has charged from. A thread whose first attempt to
get a slot failed even tries again. This file says which hooks of a finished thread are harmless.
-/

open Concurrency

namespace UnsafePerf.CpuCycle

/-! ## Threads that call hooks to their very end -/

/-- A thread between its calls. -/
structure Career where
  locals : ThreadLocals
  /-- Whether the thread has executed `thread_cleanup`. -/
  finished : Bool

namespace Career

/-- A new thread. -/
def new : Career := ⟨.new, false⟩

end Career

section System

variable {τ : Type} [DecidableEq τ]

/-- What a thread may still call: `thread_start_wrapper` initializes and cleans up once, but hooks
may come at any time. -/
def Call.possible (career : Career) : Call → Bool
  | .init | .cleanup => !career.finished
  | .hook _ => true

/-- The threads of the program, up to the end of their destructors. -/
def careers : Service τ (Call × Inputs) (Shared τ) Career where
  code t call career := do
    let (_, l) ← (call.1.code t call.2).run career.locals
    return ⟨l, career.finished || call.1 = .cleanup⟩
  allowed _ call career _ := call.1.possible career

/-- The start of the program. -/
def fresh : Config τ (Shared τ) Career := .start .new .new

/-! ## Silence -/

/-- No counter of any slot differs. -/
def SameCounters (s s' : Shared τ) : Prop :=
  ∀ k c, (s'.threads k).counters c = (s.threads k).counters c

/-- No slot has been handed out. -/
def SameGrants (s s' : Shared τ) : Prop := s'.history.granted = s.history.granted

/-- `ms` goes on with a step of a thread that has finished by then, so the step is one of a hook. -/
def StepsFinished (ms : List (Move τ (Call × Inputs))) (t : τ) : Prop :=
  ∃ ms₁ career, ms₁ <+: ms ∧ (careers.run fresh ms₁).Idle t career ∧ career.finished = true

/-- No hook of a finished thread changes a counter. -/
def Silent (ms : List (Move τ (Call × Inputs))) : Prop :=
  ∀ pre t, pre ++ [.step t] <+: ms → StepsFinished pre t →
    SameCounters (careers.run fresh pre).shared (careers.run fresh (pre ++ [.step t])).shared

/-- The top context is charged at this reading. -/
def ThreadLocals.Charges (l : ThreadLocals) (tsc : UInt64) : Prop :=
  ∃ h : 0 < l.stackDepth, (l.top h).startTsc > 0 ∧ tsc > (l.top h).startTsc

/-- A hook that adds to no counter of the slot on record: the end of a region or of a call at a
reading not later than the start of the top context, the end of a call nobody has started, and the
start of a call when the stack is full. -/
def Hook.Quiet (inp : Inputs) (l : ThreadLocals) : Hook → Prop
  | .startMeasurement => False
  | .endMeasurement => ¬l.Charges inp.tsc
  | .callStart => maxContextDepth ≤ l.stackDepth
  | .callEnd => l.stackDepth ≤ 1 ∨ ¬l.Charges inp.tsc

/-- The finished threads write nothing: their hooks are quiet when there is a slot on record, and no
slot is handed out when there is none. -/
structure Harmless (ms : List (Move τ (Call × Inputs))) : Prop where
  quiet : ∀ pre t h inp career, pre ++ [.call t (.hook h, inp)] <+: ms →
    (careers.run fresh pre).Idle t career → career.finished = true →
    career.locals.threadSlot ≠ none → h.Quiet inp career.locals
  refused : ∀ pre t, pre ++ [.step t] <+: ms → StepsFinished pre t →
    SameGrants (careers.run fresh pre).shared (careers.run fresh (pre ++ [.step t])).shared

end System

/-! ## The locals of a thread -/

section Locals

variable {τ : Type} [DecidableEq τ] {t : τ} {inp : Inputs} {l : ThreadLocals} {k : ℕ}

/-- The locals of a thread between calls: untouched, or with a slot and a context. -/
def Sound (l : ThreadLocals) : Prop :=
  l = .new ∨ ∃ k, l.threadSlot = some k ∧ 0 < l.stackDepth

theorem sound_enter (k : ℕ) : Sound (ThreadLocals.new.enter k inp.initTsc) :=
  .inr ⟨k, rfl, Nat.one_pos⟩

theorem hook_returns_sound (h : Hook) (hslot : l.threadSlot = some k) (hpos : 0 < l.stackDepth) :
    ((h.code t inp).run l).Returns fun r ↦ Sound r.2 := by
  refine (hook_returns h hslot hpos).mono ?_
  rintro _ rfl
  exact .inr ⟨k, h.effect_threadSlot.trans hslot, h.effect_depth_pos hpos⟩

/-- The hook of a thread that has just got its slot. -/
theorem hook_entered_sound (h : Hook) (k : ℕ) :
    ((h.code t inp).run (ThreadLocals.new.enter k inp.initTsc)).Returns fun r ↦ Sound r.2 :=
  hook_returns_sound h rfl Nat.one_pos

theorem initializeThread_returns :
    ((initializeThread t inp).run .new).Returns fun r ↦
      r = (none, .new) ∨ ∃ k, r = (some k, ThreadLocals.new.enter k inp.initTsc) := by
  simp only [initializeThread, ThreadM.run_bind, ThreadM.run_get, Program.done_bind,
    ThreadLocals.new, ThreadM.run_lift, bind_assoc]
  refine Program.returns_bind fun r ↦ ?_
  cases r with
  | none => exact .inl rfl
  | some k =>
    simp only [ThreadM.run_bind, ThreadM.run_lift, bind_assoc, Program.done_bind,
      ThreadM.run_modify, ThreadM.run_pure]
    refine Program.returns_bind fun _ ↦ Program.returns_bind fun _ ↦ Program.returns_bind fun _ ↦
      Program.returns_bind fun _ ↦ ?_
    exact .inr ⟨k, rfl⟩

/-- Every call leaves sound locals. -/
theorem call_returns_sound (call : Call) (hsound : Sound l) :
    ((call.code t inp).run l).Returns fun r ↦ Sound r.2 := by
  rcases hsound with rfl | ⟨k, hslot, hpos⟩
  · -- a call that tries to get a slot goes on with the one it gets
    have hinit : ∀ {α : Type} {f : Option ℕ × ThreadLocals → Program (Shared τ) (α × ThreadLocals)},
        (f (none, .new)).Returns (fun r ↦ Sound r.2) →
        (∀ k, (f (some k, ThreadLocals.new.enter k inp.initTsc)).Returns fun r ↦ Sound r.2) →
        ((initializeThread t inp).run .new >>= f).Returns fun r ↦ Sound r.2 := by
      intro α f hnone hsome
      refine initializeThread_returns.bind ?_
      rintro r (rfl | ⟨k, rfl⟩)
      · exact hnone
      · exact hsome k
    cases call with
    | init =>
      simp only [Call.code, ThreadM.run_bind, ThreadM.run_pure]
      exact hinit (.inl rfl) fun k ↦ sound_enter k
    | cleanup =>
      rw [Call.code, threadCleanup_run_none rfl]
      exact .inl rfl
    | hook h =>
      cases h with
      | startMeasurement =>
        simp only [Call.code, Hook.code, cpuCycleStartMeasurement, ThreadM.run_bind,
          slotOrInitialize_run_none (l := .new) rfl, bind_assoc]
        exact hinit (.inl rfl) fun k ↦ hook_entered_sound .startMeasurement k
      | endMeasurement =>
        simp only [Call.code, Hook.code, cpuCycleEndMeasurement, transitionState, ThreadM.run_bind,
          ThreadM.run_get, slotOrInitialize_run_none (l := .new) rfl, Program.done_bind, bind_assoc]
        exact hinit (.inl rfl) fun k ↦ hook_entered_sound .endMeasurement k
      | callStart =>
        simp only [Call.code, Hook.code, externalCallStart, ThreadM.run_bind,
          slotOrInitialize_run_none (l := .new) rfl, bind_assoc]
        exact hinit (.inl rfl) fun k ↦ hook_entered_sound .callStart k
      | callEnd =>
        simp only [Call.code, Hook.code, externalCallEnd, popContext, ThreadM.run_bind,
          ThreadM.run_get, Program.done_bind, ThreadLocals.new, ThreadM.run_pure]
        exact .inl rfl
  · cases call with
    | init =>
      simp only [Call.code, ThreadM.run_bind, initializeThread_run_some hslot, Program.done_bind,
        ThreadM.run_pure]
      exact .inr ⟨k, hslot, hpos⟩
    | hook h => exact hook_returns_sound h hslot hpos
    | cleanup =>
      refine (threadCleanup_returns hslot hpos).mono fun r hr ↦ ?_
      rw [hr]
      exact .inr ⟨k, hslot, hpos⟩

/-- Between its calls, a thread has sound locals. -/
theorem sound_run (ms : List (Move τ (Call × Inputs))) {career : Career}
    (hidle : (careers.run fresh ms).Idle t career) : Sound career.locals := by
  have hcall : ∀ call career, Sound (Career.locals career) →
      ((careers (τ := τ)).code t call career).Returns fun career ↦ Sound career.locals :=
    fun call career hsound ↦ (call_returns_sound call.1 hsound).bind fun r hr ↦ hr
  have hreturns := careers.run_returns hcall (c := fresh) (.inl rfl) ms
  rw [hidle] at hreturns
  exact hreturns

end Locals

/-! ## What keeps a hook silent -/

section Silence

variable {τ : Type} [DecidableEq τ] {t : τ} {inp : Inputs} {l : ThreadLocals} {k : ℕ}

theorem not_sameGrants_grant (s : Shared τ) (t : τ) (k : ℕ) (st : ThreadStats) :
    ¬SameGrants s ((s.setStats k st).grant t k) := by
  intro h
  have hlength := congrArg List.length h
  simp [Shared.grant, Shared.setStats] at hlength

omit [DecidableEq τ] in
theorem sameCounters_refl (s : Shared τ) : SameCounters s s := fun _ _ ↦ rfl

theorem reuseSlot_guarded (slots : List ℕ) :
    (reuseSlot t slots).Guarded SameGrants SameCounters (· = none) := by
  induction slots with
  | nil => rfl
  | cons slot slots ih =>
    refine (Program.guarded_load (P := fun _ ↦ True) sameCounters_refl fun _ ↦ trivial).bind
      fun state _ ↦ ?_
    by_cases hterm : state = .terminated
    · rw [if_pos hterm]
      have hlost : (compareExchangeState t slot).Guarded SameGrants SameCounters (· = false) := by
        refine Program.guarded_rmw fun s hok ↦ ?_
        by_cases hstill : (s.threads slot).state = .terminated
        · rw [if_pos hstill] at hok
          exact absurd hok (not_sameGrants_grant s t slot _)
        · rw [if_neg hstill]
          exact ⟨sameCounters_refl s, rfl⟩
      refine hlost.bind ?_
      rintro _ rfl
      exact ih
    · rw [if_neg hterm]
      exact ih

/-- An allocation that hands out no slot changes no counter. -/
theorem allocateSlot_guarded :
    (allocateSlot t).Guarded SameGrants SameCounters (· = none) := by
  refine (Program.guarded_load (P := fun _ ↦ True) sameCounters_refl fun _ ↦ trivial).bind
    fun currentSlots _ ↦ ?_
  refine (reuseSlot_guarded _).bind ?_
  rintro _ rfl
  have hfull : (fetchAddNextSlot t).Guarded SameGrants SameCounters (¬· < maxThreads) := by
    refine Program.guarded_rmw fun s hok ↦ ?_
    by_cases hlt : s.nextSlot < maxThreads
    · have hlength := congrArg List.length hok
      simp [if_pos hlt, Shared.grant] at hlength
    · simp only [if_neg hlt]
      exact ⟨sameCounters_refl s, hlt⟩
  refine hfull.bind fun slot hslot ↦ ?_
  rw [if_neg hslot]
  refine Program.Guarded.bind (P := fun _ ↦ True) (Program.guarded_rmw fun s _ ↦ ?_) fun _ _ ↦ rfl
  exact ⟨sameCounters_refl s, trivial⟩

theorem initializeThread_guarded :
    ((initializeThread t inp).run .new).Guarded SameGrants SameCounters (· = (none, .new)) := by
  simp only [initializeThread, ThreadM.run_bind, ThreadM.run_get, Program.done_bind,
    ThreadLocals.new, ThreadM.run_lift, bind_assoc]
  refine allocateSlot_guarded.bind ?_
  rintro _ rfl
  rfl

/-- A hook of a thread without a slot is silent when it gets none. -/
theorem hook_guarded_new (h : Hook) :
    ((h.code t inp).run .new).Guarded SameGrants SameCounters fun r ↦ Sound r.2 := by
  cases h with
  | startMeasurement =>
    simp only [Hook.code, cpuCycleStartMeasurement, ThreadM.run_bind,
      slotOrInitialize_run_none (l := .new) rfl, bind_assoc]
    refine initializeThread_guarded.bind ?_
    rintro _ rfl
    exact .inl rfl
  | endMeasurement =>
    simp only [Hook.code, cpuCycleEndMeasurement, transitionState, ThreadM.run_bind,
      ThreadM.run_get, slotOrInitialize_run_none (l := .new) rfl, Program.done_bind, bind_assoc]
    refine initializeThread_guarded.bind ?_
    rintro _ rfl
    exact .inl rfl
  | callStart =>
    simp only [Hook.code, externalCallStart, ThreadM.run_bind,
      slotOrInitialize_run_none (l := .new) rfl, bind_assoc]
    refine initializeThread_guarded.bind ?_
    rintro _ rfl
    exact .inl rfl
  | callEnd =>
    simp only [Hook.code, externalCallEnd, popContext, ThreadM.run_bind, ThreadM.run_get,
      Program.done_bind, ThreadLocals.new, ThreadM.run_pure]
    exact .inl rfl

theorem account_quiet (hpos : 0 < l.stackDepth) (hquiet : ¬l.Charges inp.tsc) :
    account t k (l.top hpos) inp.tsc = .done () := by
  have hnot : ¬((l.top hpos).startTsc > 0 ∧ inp.tsc > (l.top hpos).startTsc) :=
    fun hcharge ↦ hquiet ⟨hpos, hcharge⟩
  rw [account, if_neg hnot]
  rfl

/-- A quiet hook does not access the slot. -/
theorem accesses_quiet {h : Hook} (hpos : 0 < l.stackDepth) (hquiet : h.Quiet inp l) :
    h.accesses t k inp l = .done () := by
  cases h with
  | startMeasurement => exact hquiet.elim
  | endMeasurement =>
    rw [Hook.accesses, dif_pos hpos]
    exact account_quiet hpos hquiet
  | callStart =>
    rw [Hook.accesses, if_neg (not_lt.mpr hquiet)]
    rfl
  | callEnd =>
    by_cases hgt : 1 < l.stackDepth
    · rw [Hook.accesses, dif_pos hgt]
      exact account_quiet _ (hquiet.resolve_left (not_le.mpr hgt))
    · rw [Hook.accesses, dif_neg hgt]
      rfl

/-- A hook of a finished thread is silent, if it is quiet or there is no slot on record. -/
theorem careers_guarded {h : Hook} {career : Career} (hfinished : career.finished = true)
    (hsound : Sound career.locals)
    (hquiet : career.locals.threadSlot ≠ none → h.Quiet inp career.locals) :
    (careers.code t (.hook h, inp) career).Guarded SameGrants SameCounters fun career ↦
      career.finished = true ∧ Sound career.locals := by
  have hrest : ∀ r : Unit × ThreadLocals, Sound r.2 →
      (Program.done ⟨r.2, career.finished || Call.hook h = .cleanup⟩ :
        Program (Shared τ) Career).Guarded SameGrants SameCounters fun career ↦
          career.finished = true ∧ Sound career.locals := by
    intro r hr
    refine ⟨?_, hr⟩
    change (career.finished || decide (Call.hook h = .cleanup)) = true
    rw [hfinished, Bool.true_or]
  obtain ⟨l, finished⟩ := career
  change ((h.code t inp).run l >>= _).Guarded _ _ _
  rcases hsound with rfl | ⟨k, hslot, hpos⟩
  · exact (hook_guarded_new h).bind hrest
  · have hslot' : l.threadSlot ≠ none := by
      rw [hslot]
      exact Option.some_ne_none k
    have hsound : Sound (h.effect inp (l, .new)).1 :=
      .inr ⟨k, h.effect_threadSlot.trans hslot, h.effect_depth_pos hpos⟩
    rw [hook_run h hslot hpos, accesses_quiet hpos (hquiet hslot'), Program.done_bind]
    exact hrest ((), _) hsound

end Silence

/-! ## Whole runs -/

section Runs

variable {τ : Type} [DecidableEq τ] {t : τ} {ms : List (Move τ (Call × Inputs))}

theorem Harmless.of_prefix {pre : List (Move τ (Call × Inputs))} (h : Harmless ms)
    (hpre : pre <+: ms) : Harmless pre where
  quiet pre' t h' inp career hpre' := h.quiet pre' t h' inp career (hpre'.trans hpre)
  refused pre' t hpre' := h.refused pre' t (hpre'.trans hpre)

/-- From its end on, whatever a thread is doing is silent. -/
theorem Harmless.guarded (h : Harmless ms) (hfinished : StepsFinished ms t) :
    ((careers.run fresh ms).thread t).Guarded SameGrants SameCounters fun career ↦
      career.finished = true ∧ Sound career.locals := by
  obtain ⟨ms₁, career₁, ⟨ms₂, rfl⟩, hidle₁, hfinished₁⟩ := hfinished
  have hlater : ∀ {pre m}, pre ++ [m] <+: ms₂ → ms₁ ++ pre ++ [m] <+: ms₁ ++ ms₂ := by
    intro pre m hpre
    rw [List.append_assoc]
    exact (List.prefix_append_right_inj ms₁).mpr hpre
  rw [Service.run_append]
  refine careers.run_guarded ?_ ?_ ?_
  · rw [hidle₁]
    exact ⟨hfinished₁, sound_run ms₁ hidle₁⟩
  · rintro pre ⟨call, inp⟩ career hpre hidle ⟨hfinished, hsound⟩ hallowed
    cases call with
    | init =>
      change (!career.finished) = true at hallowed
      rw [hfinished] at hallowed
      exact absurd hallowed Bool.false_ne_true
    | cleanup =>
      change (!career.finished) = true at hallowed
      rw [hfinished] at hallowed
      exact absurd hallowed Bool.false_ne_true
    | hook hook =>
      rw [← Service.run_append] at hidle
      exact careers_guarded hfinished hsound
        (h.quiet (ms₁ ++ pre) t hook inp career (hlater hpre) hidle hfinished)
  · intro pre hpre
    have hsame := h.refused (ms₁ ++ pre) t (hlater hpre)
      ⟨ms₁, career₁, List.prefix_append _ _, hidle₁, hfinished₁⟩
    rwa [List.append_assoc, Service.run_append, Service.run_append] at hsame

/-- **Finished threads are silent** in every run in which their hooks are quiet and they are handed
no slot. -/
theorem finished_silent (ms : List (Move τ (Call × Inputs))) (h : Harmless ms) : Silent ms := by
  intro pre t hpre hfinished
  have hguarded := (h.of_prefix ((List.prefix_append _ _).trans hpre)).guarded hfinished
  have hsame := h.refused pre t hpre hfinished
  rw [Service.run_append_singleton] at hsame ⊢
  exact careers.step_guarded hguarded hsame sameCounters_refl

end Runs

/-! ## A finished thread and the next owner of its slot -/

/-- A thread gets slot `0`, starts a region, and finishes. -/
def firstLife : List (Move Bool (Call × Inputs)) :=
  Move.alone false (.init, ⟨1, 10, 10, 10⟩) 6 ++
  Move.alone false (.hook .startMeasurement, ⟨1, 10, 20, 20⟩) 2 ++
  Move.alone false (.cleanup, ⟨1, 10, 30, 30⟩) 3

/-- Another thread is given the slot, and then a destructor of the first one ends the region. -/
def lateEnd : List (Move Bool (Call × Inputs)) :=
  firstLife ++ Move.alone true (.init, ⟨2, 40, 40, 40⟩) 16 ++
    [.call false (.hook .endMeasurement, ⟨1, 10, 50, 50⟩)]

/-- The end of the region at 50 charges 30 cycles to the slot of the second thread; the cleanup has
already charged 10 of them. -/
theorem finished_not_silent : ¬∀ ms : List (Move Bool (Call × Inputs)), Silent ms := by
  intro h
  have hdone : ((careers.run fresh firstLife).thread false).returned.any (·.finished) = true := by
    decide +kernel
  obtain ⟨career, hreturned, hfinished⟩ := (Option.any_eq_true _ _).mp hdone
  have hsame := h (lateEnd ++ [.step false]) lateEnd false List.prefix_rfl
    ⟨firstLife, career, ⟨_, (List.append_assoc ..).symm⟩, Program.returned_eq_some.mp hreturned,
      hfinished⟩ 0 .unsafeCycles
  exact absurd hsame (by decide +kernel)

/-- A destructor of the finished thread returns from a call nobody has started. -/
def lateReturn : Move Bool (Call × Inputs) := .call false (.hook .callEnd, ⟨1, 10, 50, 50⟩)

theorem firstLife_unfinished {pre : List (Move Bool (Call × Inputs))} (hpre : pre <+: firstLife)
    (hne : pre.length < firstLife.length) {t : Bool} {career : Career}
    (hidle : (careers.run fresh pre).Idle t career) : career.finished = false := by
  have hall : ∀ i < firstLife.length, ∀ t,
      ((careers.run fresh (firstLife.take i)).thread t).returned.all (!·.finished) = true := by
    decide +kernel
  have h := hall pre.length hne t
  rw [← List.prefix_iff_eq_take.mp hpre, hidle] at h
  simpa [Program.returned] using h

theorem finished_silent_lateReturn :
    Silent (firstLife ++ [lateReturn]) := by
  have hbefore : ∀ {pre : List (Move Bool (Call × Inputs))} {m}, pre ++ [m] <+: firstLife →
      ∀ {ms₁}, ms₁ <+: pre → ∀ {t career}, (careers.run fresh ms₁).Idle t career →
        career.finished = false := by
    intro pre m hpre ms₁ hms₁ t career hidle
    have hlength := hpre.length_le
    have hlength₁ := hms₁.length_le
    rw [List.length_append, List.length_singleton] at hlength
    exact firstLife_unfinished (hms₁.trans ((List.prefix_append _ _).trans hpre)) (by omega) hidle
  refine finished_silent _ ⟨?_, ?_⟩
  · intro pre t h inp career hpre hidle hfinished _
    rcases List.prefix_concat_iff.mp hpre with heq | hpre
    · obtain ⟨rfl, hmove⟩ := List.append_inj' heq rfl
      obtain ⟨rfl, rfl, -⟩ : t = false ∧ h = .callEnd ∧ _ := by
        simpa [lateReturn] using hmove
      have hdepth : ((careers.run fresh firstLife).thread false).returned.all
          (·.locals.stackDepth ≤ 1) = true := by decide +kernel
      rw [hidle] at hdepth
      exact .inl (by simpa [Program.returned] using hdepth)
    · exact absurd hfinished (by simp [hbefore hpre List.prefix_rfl hidle])
  · rintro pre t hpre ⟨ms₁, career, hms₁, hidle, hfinished⟩
    rcases List.prefix_concat_iff.mp hpre with heq | hpre
    · exact absurd (List.append_inj' heq rfl).2 (by simp [lateReturn])
    · exact absurd hfinished (by simp [hbefore hpre hms₁ hidle])

end UnsafePerf.CpuCycle
