import UnsafePerf.CpuCycle.Slots

/-!
# What each operation does to its own thread

Because nobody else writes a held slot, an operation of a thread has a definite effect on the
thread's locals and on its slot, whatever the other threads do in between. This file computes that
effect for every operation and proves that the code has it in every interleaving.

`Hook.effect` is the effect of a hook. Everything about the cycle accounting of one thread follows
from it; nothing downstream unfolds the code of a hook again.
-/

open Concurrency

namespace UnsafePerf.CpuCycle

/-! ## The effects -/

/-- The slot after the time since the context was last touched has been charged. -/
def ThreadStats.charge (st : ThreadStats) (frame : ContextFrame) (tsc : UInt64) : ThreadStats :=
  if frame.startTsc > 0 ∧ tsc > frame.startTsc then
    st.add frame.state.counter (tsc - frame.startTsc)
  else st

/-- The slot of a thread that has cleaned up. -/
def ThreadStats.finish (st : ThreadStats) (frame : ContextFrame) (tsc : UInt64) : ThreadStats :=
  { st.charge frame tsc with lastKnownTsc := tsc, state := .terminated }

/-- The slot of a thread that has just been initialized. -/
def ThreadStats.started (inp : Inputs) : ThreadStats where
  threadId := inp.threadId
  state := .active
  startTsc := inp.initTsc
  lastKnownTsc := inp.initTsc
  counters _ := 0

/-- The effect of a hook on a thread that holds a slot. -/
def Hook.effect (inp : Inputs) : Hook → ThreadLocals × ThreadStats → ThreadLocals × ThreadStats
  | .startMeasurement, (l, st) =>
    if h : 0 < l.stackDepth then
      (l.setTop h ⟨l.currentState.enterUnsafe, inp.tsc⟩,
        (st.charge (l.top h) inp.tsc).add .unsafeBlocks 1)
    else (l, st)
  | .endMeasurement, (l, st) =>
    if h : 0 < l.stackDepth then
      (l.setTop h ⟨l.currentState.leaveUnsafe, inp.tsc⟩, st.charge (l.top h) inp.tsc)
    else (l, st)
  | .callStart, (l, st) =>
    if h : l.stackDepth < maxContextDepth then
      (l.push h ⟨l.currentState.callExternal, inp.tsc⟩,
        (if hpos : 0 < l.stackDepth then st.charge (l.top hpos) inp.tsc else st).add
          .externalCalls 1)
    else (l, st)
  | .callEnd, (l, st) =>
    if h : 1 < l.stackDepth then
      (l.resume h inp.tsc, st.charge (l.top (Nat.lt_of_succ_lt h)) inp.tsc)
    else (l, st)

/-! ## The code with the thread's slot and depth known

What is left of each operation is its accesses to the slot. -/

section Run

variable {τ : Type} [DecidableEq τ] {t : τ} {inp : Inputs} {l : ThreadLocals} {k : ℕ}

theorem initializeThread_run_some (hslot : l.threadSlot = some k) :
    (initializeThread t inp).run l = .done (some k, l) := by
  simp [initializeThread, hslot]

theorem slotOrInitialize_run_none (hslot : l.threadSlot = none) :
    (slotOrInitialize t inp).run l = (initializeThread t inp).run l := by
  simp [slotOrInitialize, hslot]

theorem slotOrInitialize_run (hslot : l.threadSlot = some k) :
    (slotOrInitialize t inp).run l = .done (some k, l) := by
  simp [slotOrInitialize, hslot]

theorem transitionState_run (state : ExecutionState) (hslot : l.threadSlot = some k)
    (hpos : 0 < l.stackDepth) :
    (transitionState t inp state).run l
      = account t k (l.top hpos) inp.tsc >>= fun _ ↦
          .done (.ok (), l.setTop hpos ⟨state, inp.tsc⟩) := by
  have hdepth : ¬(l.stackDepth = 0 ∨ l.stackDepth > maxContextDepth) := by
    have := l.depth_le
    omega
  simp [transitionState, slotOrInitialize_run hslot, dif_neg hdepth]

theorem pushContext_run (state : ExecutionState) (hslot : l.threadSlot = some k)
    (hlt : l.stackDepth < maxContextDepth) (hpos : 0 < l.stackDepth) :
    (pushContext t inp state).run l
      = account t k (l.top hpos) inp.tsc >>= fun _ ↦
          .done (.ok (), l.push hlt ⟨state, inp.tsc⟩) := by
  simp [pushContext, slotOrInitialize_run hslot, dif_neg (not_le.mpr hlt), hpos]

theorem pushContext_run_full (state : ExecutionState) (hslot : l.threadSlot = some k)
    (hfull : maxContextDepth ≤ l.stackDepth) :
    (pushContext t inp state).run l = .done (.error "Context stack overflow", l) := by
  simp [pushContext, slotOrInitialize_run hslot, hfull]

theorem popContext_run (hslot : l.threadSlot = some k) (h : 1 < l.stackDepth) :
    (popContext t inp).run l
      = account t k (l.top (Nat.lt_of_succ_lt h)) inp.tsc >>= fun _ ↦
          .done (.ok (), l.resume h inp.tsc) := by
  simp [popContext, hslot, dif_neg (not_le.mpr h)]

theorem popContext_run_bottom (hslot : l.threadSlot = some k) (h : l.stackDepth ≤ 1) :
    (popContext t inp).run l = .done (.error "Cannot pop from empty context stack", l) := by
  simp [popContext, hslot, h]

theorem threadCleanup_run_none (hslot : l.threadSlot = none) :
    (threadCleanup t inp).run l = .done ((), l) := by
  simp [threadCleanup, hslot]

theorem threadCleanup_run (hslot : l.threadSlot = some k) (hk : k < maxThreads)
    (hpos : 0 < l.stackDepth) :
    (threadCleanup t inp).run l
      = (do
          account t k (l.top hpos) inp.tsc
          storeField t k fun st ↦ { st with lastKnownTsc := inp.tsc }
          storeTerminated t k
          .done ((), l)) := by
  simp [threadCleanup, hslot, hk, hpos]

/-- The cleanup leaves the locals alone. -/
theorem threadCleanup_returns (hslot : l.threadSlot = some k) (hpos : 0 < l.stackDepth) :
    ((threadCleanup t inp).run l).Returns fun r ↦ r.2 = l := by
  by_cases hk : k < maxThreads
  · rw [threadCleanup_run hslot hk hpos]
    exact Program.returns_bind fun _ ↦ Program.returns_bind fun _ ↦ Program.returns_bind fun _ ↦ rfl
  · simp [threadCleanup, hslot, hk, Program.Returns]

/-- The accesses of a hook to the slot of its thread. -/
def Hook.accesses (t : τ) (k : ℕ) (inp : Inputs) (l : ThreadLocals) :
    Hook → Program (Shared τ) Unit
  | .startMeasurement =>
    if h : 0 < l.stackDepth then do
      account t k (l.top h) inp.tsc
      fetchAddCounter t k .unsafeBlocks 1
    else return ()
  | .endMeasurement => if h : 0 < l.stackDepth then account t k (l.top h) inp.tsc else return ()
  | .callStart =>
    if l.stackDepth < maxContextDepth then do
      if h : 0 < l.stackDepth then account t k (l.top h) inp.tsc
      fetchAddCounter t k .externalCalls 1
    else return ()
  | .callEnd =>
    if h : 1 < l.stackDepth then account t k (l.top (Nat.lt_of_succ_lt h)) inp.tsc else return ()

/-- **A hook** of a thread that has a slot makes its accesses to the slot. What it does to the
locals depends on nothing it reads. -/
theorem hook_run (h : Hook) (hslot : l.threadSlot = some k) (hpos : 0 < l.stackDepth) :
    (h.code t inp).run l
      = h.accesses t k inp l >>= fun _ ↦ .done ((), (h.effect inp (l, .new)).1) := by
  cases h with
  | startMeasurement =>
    simp only [Hook.code, cpuCycleStartMeasurement, Hook.effect, Hook.accesses, dif_pos hpos,
      ThreadM.run_bind, slotOrInitialize_run hslot, transitionState_run _ hslot hpos,
      Program.done_bind, bind_assoc, ThreadM.run_get, ThreadM.run_lift, ThreadM.run_pure]
  | endMeasurement =>
    simp only [Hook.code, cpuCycleEndMeasurement, Hook.effect, Hook.accesses, dif_pos hpos,
      ThreadM.run_bind, transitionState_run _ hslot hpos, Program.done_bind, bind_assoc,
      ThreadM.run_get, ThreadM.run_pure]
  | callStart =>
    by_cases hlt : l.stackDepth < maxContextDepth
    · simp only [Hook.code, externalCallStart, Hook.effect, Hook.accesses, dif_pos hpos,
        dif_pos hlt, if_pos hlt, ThreadM.run_bind, slotOrInitialize_run hslot,
        pushContext_run _ hslot hlt hpos, Program.done_bind, bind_assoc, ThreadM.run_get,
        ThreadM.run_lift, ThreadM.run_pure]
    · simp only [Hook.code, externalCallStart, Hook.effect, Hook.accesses, dif_neg hlt,
        if_neg hlt, ThreadM.run_bind, slotOrInitialize_run hslot,
        pushContext_run_full _ hslot (not_lt.mp hlt), Program.done_bind, Program.pure_eq,
        ThreadM.run_get, ThreadM.run_pure]
  | callEnd =>
    by_cases hgt : 1 < l.stackDepth
    · simp only [Hook.code, externalCallEnd, Hook.effect, Hook.accesses, dif_pos hgt,
        ThreadM.run_bind, popContext_run hslot hgt, Program.done_bind, bind_assoc,
        ThreadM.run_pure]
    · simp only [Hook.code, externalCallEnd, Hook.effect, Hook.accesses, dif_neg hgt,
        ThreadM.run_bind, popContext_run_bottom hslot (not_lt.mp hgt), Program.done_bind,
        Program.pure_eq, ThreadM.run_pure]

/-- The locals after a hook do not depend on anything the hook reads. -/
theorem hook_returns (h : Hook) (hslot : l.threadSlot = some k) (hpos : 0 < l.stackDepth) :
    ((h.code t inp).run l).Returns (· = ((), (h.effect inp (l, .new)).1)) := by
  rw [hook_run h hslot hpos]
  exact Program.returns_bind fun _ ↦ rfl

end Run

/-! ## Rules for a thread that holds a slot -/

section Rules

variable {τ : Type} [Fintype τ] {t : τ} {k : ℕ} {st : ThreadStats}
  {s : Shared τ} {Q : Unit → Shared τ → Prop}

/-- A store to the thread's own slot. -/
theorem wp_own {f : Shared τ → Shared τ} {st' : ThreadStats}
    (hstep : ∀ s, Inv s → Holding t k st s → contract.Honest t s (f s) ∧ Holding t k st' (f s))
    (hh : Holding t k st s) (hQ : ∀ s', Inv s' → Holding t k st' s' → Q () s') :
    contract.wp t (.store f) Q s := by
  refine Contract.wp_store fun s₁ hr hi ↦ ?_
  obtain ⟨hhonest, hheld⟩ := hstep s₁ hi (hh.rely hr)
  exact ⟨hhonest, fun s₂ hr' hi' ↦ hQ s₂ hi' (hheld.rely hr')⟩

theorem wp_storeField {f : ThreadStats → ThreadStats} (hh : Holding t k st s)
    (hcounters : (f st).counters = st.counters) (hstate : (f st).state ≠ .terminated)
    (hQ : ∀ s', Inv s' → Holding t k (f st) s' → Q () s') :
    contract.wp t (storeField t k f) Q s :=
  wp_own (fun _ hi hh ↦ honest_storeField hi hh hcounters hstate) hh hQ

theorem wp_resetCounter (c : Counter) (hh : Holding t k st s)
    (hQ : ∀ s', Inv s' → Holding t k (st.clear c) s' → Q () s') :
    contract.wp t (resetCounter t k c) Q s :=
  wp_own (fun _ hi hh ↦ honest_resetCounter hi hh c) hh hQ

theorem wp_storeActive (hh : Holding t k st s) (hzero : ∀ c, st.counters c = 0)
    (hQ : ∀ s', Inv s' → Holding t k { st with state := .active } s' → Q () s') :
    contract.wp t (storeActive t k) Q s :=
  wp_own (fun _ hi hh ↦ honest_storeActive hi hh hzero) hh hQ

/-- The resets leave a slot with nothing in it. -/
theorem wp_resetStatistics (hh : Holding t k st s) (hstate : st.state ≠ .terminated) :
    contract.wp t (resetStatistics t k)
      (fun _ s ↦ ∃ st', Holding t k st' s ∧ ∀ c, st'.counters c = 0) s := by
  refine Contract.wp_bind (wp_storeField hh rfl hstate fun s₁ _ h₁ ↦ ?_)
  refine Contract.wp_bind (wp_storeField h₁ rfl hstate fun s₂ _ h₂ ↦ ?_)
  refine Contract.wp_bind (wp_storeField h₂ rfl hstate fun s₃ _ h₃ ↦ ?_)
  refine Contract.wp_bind (wp_resetCounter _ h₃ fun s₄ _ h₄ ↦ ?_)
  refine Contract.wp_bind (wp_resetCounter _ h₄ fun s₅ _ h₅ ↦ ?_)
  refine Contract.wp_bind (wp_resetCounter _ h₅ fun s₆ _ h₆ ↦ ?_)
  refine Contract.wp_bind (wp_resetCounter _ h₆ fun s₇ _ h₇ ↦ ?_)
  refine Contract.wp_bind (wp_resetCounter _ h₇ fun s₈ _ h₈ ↦ ?_)
  refine wp_resetCounter _ h₈ fun s₉ _ h₉ ↦ ⟨_, h₉, fun c ↦ ?_⟩
  cases c <;> simp [ThreadStats.clear]

variable [DecidableEq τ]

theorem wp_fetchAddCounter (c : Counter) (d : UInt64) (hh : Holding t k st s)
    (hQ : ∀ s', Inv s' → Holding t k (st.add c d) s' → Q () s') :
    contract.wp t (fetchAddCounter t k c d) Q s :=
  wp_own (fun _ hi hh ↦ honest_fetchAddCounter hi hh c d) hh hQ

theorem wp_account (frame : ContextFrame) (tsc : UInt64) (hh : Holding t k st s)
    (hQ : ∀ s', Inv s' → Holding t k (st.charge frame tsc) s' → Q () s') :
    contract.wp t (account t k frame tsc) Q s := by
  unfold account ThreadStats.charge at *
  by_cases h : frame.startTsc > 0 ∧ tsc > frame.startTsc
  · rw [if_pos h] at hQ ⊢
    exact wp_fetchAddCounter _ _ hh hQ
  · rw [if_neg h] at hQ ⊢
    exact Contract.wp_done fun s' hr hi ↦ hQ s' hi (hh.rely hr)

end Rules

/-! ## The operations have their effects -/

section Operations

variable {τ : Type} [DecidableEq τ] [Fintype τ] {t : τ} {k : ℕ} {st : ThreadStats}
  {s : Shared τ} {l : ThreadLocals} {inp : Inputs}

/-- The accesses of a hook have its effect on the slot. -/
theorem wp_accesses (inp : Inputs) (h : Hook) (hh : Holding t k st s) (hpos : 0 < l.stackDepth) :
    contract.wp t (h.accesses t k inp l) (fun _ s ↦ Holding t k (h.effect inp (l, st)).2 s) s := by
  cases h with
  | startMeasurement =>
    simp only [Hook.accesses, Hook.effect, dif_pos hpos]
    exact Contract.wp_bind (wp_account _ _ hh fun s₁ _ h₁ ↦
      wp_fetchAddCounter _ _ h₁ fun s₂ _ h₂ ↦ h₂)
  | endMeasurement =>
    simp only [Hook.accesses, Hook.effect, dif_pos hpos]
    exact wp_account _ _ hh fun s₁ _ h₁ ↦ h₁
  | callStart =>
    by_cases hlt : l.stackDepth < maxContextDepth
    · simp only [Hook.accesses, Hook.effect, dif_pos hpos, dif_pos hlt, if_pos hlt]
      exact Contract.wp_bind (wp_account _ _ hh fun s₁ _ h₁ ↦
        wp_fetchAddCounter _ _ h₁ fun s₂ _ h₂ ↦ h₂)
    · simp only [Hook.accesses, Hook.effect, dif_neg hlt, if_neg hlt]
      exact Contract.wp_done fun s₁ hr _ ↦ hh.rely hr
  | callEnd =>
    by_cases hgt : 1 < l.stackDepth
    · simp only [Hook.accesses, Hook.effect, dif_pos hgt]
      exact wp_account _ _ hh fun s₁ _ h₁ ↦ h₁
    · simp only [Hook.accesses, Hook.effect, dif_neg hgt]
      exact Contract.wp_done fun s₁ hr _ ↦ hh.rely hr

omit [DecidableEq τ] [Fintype τ] in
/-- The locals after a hook do not depend on the slot. -/
theorem Hook.effect_locals (h : Hook) (st st' : ThreadStats) :
    (h.effect inp (l, st)).1 = (h.effect inp (l, st')).1 := by
  cases h <;> simp only [effect] <;> split <;> rfl

/-- **Every hook has its effect** in every interleaving, for a thread that holds a slot. -/
theorem wp_hook (inp : Inputs) (h : Hook) (hh : Holding t k st s) (hslot : l.threadSlot = some k)
    (hpos : 0 < l.stackDepth) :
    contract.wp t ((h.code t inp).run l)
      (fun r s ↦ r.2 = (h.effect inp (l, st)).1 ∧ Holding t k (h.effect inp (l, st)).2 s) s := by
  rw [hook_run h hslot hpos, h.effect_locals .new st]
  refine Contract.wp_seq (wp_accesses inp h hh hpos) fun _ s₁ _ h₁ ↦ ?_
  exact Contract.wp_done fun s₂ hr _ ↦ ⟨rfl, h₁.rely hr⟩

/-- What taking a slot, or failing to, leaves behind. -/
def Allocated (t : τ) : Option ℕ → Shared τ → Prop
  | some k, s => ∃ st, Holding t k st s ∧ ∀ c, st.counters c = 0
  | none, s => Slotless t s

/-- The scan. The list of slots plays no part: a slot found terminated is in use, because the
slots beyond are untouched and hence not terminated. -/
theorem wp_reuseSlot (slots : List ℕ) (hfree : Slotless t s) :
    contract.wp t (reuseSlot t slots) (Allocated t) s := by
  induction slots generalizing s with
  | nil => exact Contract.wp_done fun s' hr _ ↦ hfree.rely hr
  | cons slot slots ih =>
    refine Contract.wp_bind (Contract.wp_load fun s₁ hr₁ _ s₂ hr₂ _ ↦ ?_)
    have hfree₂ := (hfree.rely hr₁).rely hr₂
    by_cases hterm : (s₁.threads slot).state = .terminated
    · rw [if_pos hterm]
      refine Contract.wp_bind (Contract.wp_rmw fun s₃ hr₃ hi₃ ↦ ?_)
      have hfree₃ := hfree₂.rely hr₃
      by_cases hstill : (s₃.threads slot).state = .terminated
      · have hk : slot < min s₃.nextSlot maxThreads := by
          by_contra hge
          rw [hi₃.fresh slot (not_lt.mp hge)] at hstill
          exact absurd hstill (by simp [ThreadStats.new])
        rw [if_pos hstill]
        obtain ⟨hhonest, hheld⟩ := honest_claim hi₃ hfree₃ hk hstill
        refine ⟨hhonest, fun s₄ hr₄ _ ↦ ?_⟩
        rw [if_pos rfl]
        refine Contract.wp_seq (wp_resetStatistics (hheld.rely hr₄) (by simp)) fun _ s₅ _ h₅ ↦ ?_
        obtain ⟨st, hh, hzero⟩ := h₅
        exact Contract.wp_done fun s₆ hr₆ _ ↦ ⟨st, hh.rely hr₆, hzero⟩
      · rw [if_neg hstill]
        exact ⟨⟨hi₃, fun u _ ↦ contract.rely_refl u s₃⟩, fun s₄ hr₄ _ ↦ ih (hfree₃.rely hr₄)⟩
    · rw [if_neg hterm]
      exact ih hfree₂

theorem wp_allocateSlot (hfree : Slotless t s) :
    contract.wp t (allocateSlot t) (Allocated t) s := by
  refine Contract.wp_bind (Contract.wp_load fun s₁ hr₁ _ s₂ hr₂ _ ↦ ?_)
  refine Contract.wp_seq (wp_reuseSlot _ ((hfree.rely hr₁).rely hr₂)) fun r s₃ _ h₃ ↦ ?_
  cases r with
  | some k =>
    obtain ⟨st, hh, hzero⟩ := h₃
    exact Contract.wp_done fun s₄ hr₄ _ ↦ ⟨st, hh.rely hr₄, hzero⟩
  | none =>
    refine Contract.wp_bind (Contract.wp_rmw fun s₄ hr₄ hi₄ ↦ ?_)
    have hfree₄ : Slotless t s₄ := Slotless.rely h₃ hr₄
    by_cases hlt : s₄.nextSlot < maxThreads
    · obtain ⟨hhonest, hheld⟩ := honest_takeFresh hi₄ hfree₄ hlt
      simp only [if_pos hlt]
      exact ⟨hhonest, fun s₅ hr₅ _ ↦ Contract.wp_done fun s₆ hr₆ _ ↦
        ⟨_, (hheld.rely hr₅).rely hr₆, fun _ ↦ rfl⟩⟩
    · obtain ⟨hhonest, hover⟩ := honest_overshoot hi₄ hfree₄ hlt
      simp only [if_neg hlt]
      refine ⟨hhonest, fun s₅ hr₅ _ ↦ ?_⟩
      refine Contract.wp_bind (Contract.wp_store fun s₆ hr₆ hi₆ ↦ ?_)
      obtain ⟨hhonest', hback⟩ := honest_rollback hi₆ ((hover.rely hr₅).rely hr₆)
      exact ⟨hhonest', fun s₇ hr₇ _ ↦ Contract.wp_done fun s₈ hr₈ _ ↦
        (hback.rely hr₇).rely hr₈⟩

/-- **Initialization.** A thread without a slot either gets one, active, empty, and dated by the
reading, or stays without. -/
theorem wp_initializeThread (hfree : Slotless t s) (hslot : l.threadSlot = none) :
    contract.wp t ((initializeThread t inp).run l)
      (fun r s ↦ match r.1 with
        | some k => r.2 = l.enter k inp.initTsc ∧ Holding t k (.started inp) s
        | none => r.2 = l ∧ Slotless t s) s := by
  simp only [initializeThread, ThreadM.run_bind, ThreadM.run_get, Program.done_bind, hslot,
    ThreadM.run_lift, bind_assoc]
  refine Contract.wp_seq (wp_allocateSlot hfree) fun r s₁ hi₁ h₁ ↦ ?_
  cases r with
  | none => exact Contract.wp_done fun s₂ hr₂ _ ↦ ⟨rfl, Slotless.rely h₁ hr₂⟩
  | some k =>
    obtain ⟨st, hh, hzero⟩ := h₁
    have hstate : st.state ≠ .terminated := hh.stats ▸ hi₁.holds_state t k hh.holds
    simp only [ThreadM.run_bind, ThreadM.run_lift, Program.done_bind, bind_assoc,
      ThreadM.run_modify, ThreadM.run_pure]
    refine Contract.wp_bind (wp_storeField hh rfl hstate fun s₂ _ h₂ ↦ ?_)
    refine Contract.wp_bind (wp_storeField h₂ rfl hstate fun s₃ _ h₃ ↦ ?_)
    refine Contract.wp_bind (wp_storeField h₃ rfl hstate fun s₄ _ h₄ ↦ ?_)
    refine Contract.wp_bind (wp_storeActive h₄ hzero fun s₅ _ h₅ ↦ ?_)
    have hstats : ⟨inp.threadId, .active, inp.initTsc, inp.initTsc, st.counters⟩
        = ThreadStats.started inp := by
      rw [ThreadStats.started, show st.counters = fun _ ↦ 0 from funext hzero]
    exact Contract.wp_done fun s₆ hr₆ _ ↦ ⟨rfl, hstats ▸ h₅.rely hr₆⟩

/-- **Cleanup** charges the time of the top context and gives up the slot. -/
theorem wp_threadCleanup (hi : Inv s) (hh : Holding t k st s) (hslot : l.threadSlot = some k)
    (hpos : 0 < l.stackDepth) :
    contract.wp t ((threadCleanup t inp).run l)
      (fun r s ↦ r.2 = l ∧ Left t k (st.finish (l.top hpos) inp.tsc) s) s := by
  have hk : k < maxThreads := lt_of_lt_of_le (hi.holds_lt t k hh.holds) (min_le_right _ _)
  rw [threadCleanup_run hslot hk hpos]
  refine Contract.wp_bind (wp_account _ _ hh fun s₁ hi₁ h₁ ↦ ?_)
  have hstate : (st.charge (l.top hpos) inp.tsc).state ≠ .terminated :=
    h₁.stats ▸ hi₁.holds_state t k h₁.holds
  refine Contract.wp_bind (wp_storeField h₁ rfl hstate fun s₂ _ h₂ ↦ ?_)
  refine Contract.wp_bind (Contract.wp_store fun s₃ hr₃ hi₃ ↦ ?_)
  obtain ⟨hhonest, hgone⟩ := honest_storeTerminated hi₃ (h₂.rely hr₃)
  exact ⟨hhonest, fun s₄ hr₄ _ ↦ Contract.wp_done fun s₅ hr₅ _ ↦
    ⟨rfl, (hgone.rely hr₄).rely hr₅⟩⟩

end Operations

/-! ## What a hook leaves alone -/

namespace Hook

variable {inp : Inputs} {l : ThreadLocals} {st : ThreadStats}

theorem effect_threadSlot (h : Hook) : (h.effect inp (l, st)).1.threadSlot = l.threadSlot := by
  cases h <;> simp only [effect] <;> split <;> rfl

theorem effect_depth_pos (h : Hook) (hpos : 0 < l.stackDepth) :
    0 < (h.effect inp (l, st)).1.stackDepth := by
  cases h <;> simp only [effect] <;> split
  case startMeasurement.isTrue | endMeasurement.isTrue => exact hpos
  case callStart.isTrue => exact Nat.succ_pos _
  case callEnd.isTrue h => exact Nat.sub_pos_of_lt h
  all_goals exact hpos

end Hook

@[simp] theorem ThreadStats.charge_state (st : ThreadStats) (frame : ContextFrame) (tsc : UInt64) :
    (st.charge frame tsc).state = st.state := by
  unfold ThreadStats.charge
  split <;> rfl

@[simp] theorem ThreadStats.charge_startTsc (st : ThreadStats) (frame : ContextFrame)
    (tsc : UInt64) : (st.charge frame tsc).startTsc = st.startTsc := by
  unfold ThreadStats.charge
  split <;> rfl

theorem Hook.effect_state (h : Hook) {inp : Inputs} {l : ThreadLocals} {st : ThreadStats} :
    (h.effect inp (l, st)).2.state = st.state := by
  cases h <;> simp only [effect] <;> split
  case callStart.isTrue => simp only [ThreadStats.add]; split <;> simp
  all_goals simp [ThreadStats.add]

theorem Hook.effect_startTsc (h : Hook) {inp : Inputs} {l : ThreadLocals} {st : ThreadStats} :
    (h.effect inp (l, st)).2.startTsc = st.startTsc := by
  cases h <;> simp only [effect] <;> split
  case callStart.isTrue => simp only [ThreadStats.add]; split <;> simp
  all_goals simp [ThreadStats.add]

end UnsafePerf.CpuCycle
