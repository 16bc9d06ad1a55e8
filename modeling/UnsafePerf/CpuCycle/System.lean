import UnsafePerf.CpuCycle.Effect

/-!
# The cycle counter as a system of threads

Any number of threads call the operations in any order, and the atomic steps of their calls
interleave in any way. A thread cleans up at most once, as `thread_start_wrapper` does at its end,
and can then only initialize again.

What a thread finds in its slot between two calls is a function of its own calls, `outcome`. This
is the form in which the invariant of the registry reaches the statements about single threads.
-/

open Concurrency

namespace UnsafePerf.CpuCycle

/-- The operations a thread performs. -/
inductive Call where
  | init
  | hook (h : Hook)
  | cleanup
  deriving DecidableEq

/-- A thread between its calls. -/
structure Life where
  locals : ThreadLocals
  /-- Whether the thread has given up a slot. -/
  cleanedUp : Bool
  /-- The calls made with a slot: the first of them obtained it, and the last may be its cleanup. -/
  calls : List (Call × Inputs)

namespace Life

/-- The life of a new thread. -/
def new : Life := ⟨.new, false, []⟩

/-- The life after a call that has left these locals. -/
def next (life : Life) (call : Call × Inputs) (l : ThreadLocals) : Life where
  locals := l
  cleanedUp := life.cleanedUp || (l.threadSlot.isSome && call.1 = .cleanup)
  calls := if l.threadSlot.isSome && !life.cleanedUp then life.calls ++ [call] else life.calls

theorem next_of_none {life : Life} (hcleaned : life.cleanedUp = false) (call : Call × Inputs)
    {l : ThreadLocals} (hslot : l.threadSlot = none) :
    life.next call l = ⟨l, false, life.calls⟩ := by
  simp [next, hslot, hcleaned]

theorem next_of_some {life : Life} (hcleaned : life.cleanedUp = false) (call : Call × Inputs)
    {l : ThreadLocals} {k : ℕ} (hslot : l.threadSlot = some k) :
    life.next call l = ⟨l, call.1 = .cleanup, life.calls ++ [call]⟩ := by
  simp [next, hslot, hcleaned]

theorem next_of_cleanedUp {life : Life} (hcleaned : life.cleanedUp = true)
    (call : Call × Inputs) (l : ThreadLocals) : life.next call l = ⟨l, true, life.calls⟩ := by
  simp [next, hcleaned]

end Life

section System

variable {τ : Type} [DecidableEq τ]

/-- The code of a call. -/
def Call.code (t : τ) (inp : Inputs) : Call → ThreadM ThreadLocals (Shared τ) Unit
  | .init => do
    let _ ← initializeThread t inp
  | .hook h => h.code t inp
  | .cleanup => threadCleanup t inp

/-- What a thread may call: anything before its cleanup, and after it only `initialize_thread`. -/
def Call.permitted (life : Life) : Call → Bool
  | .init => true
  | .hook _ | .cleanup => !life.cleanedUp

/-- The system. -/
def system : Service τ (Call × Inputs) (Shared τ) Life where
  code t call life := do
    let (_, l) ← (call.1.code t call.2).run life.locals
    return life.next call l
  allowed _ call life _ := call.1.permitted life

/-- The start of the program: an untouched registry, and no thread has run. -/
def start : Config τ (Shared τ) Life := .start .new .new

end System

/-! ## The outcome of a thread's calls -/

/-- The effect of a call, other than the cleanup, on a thread that holds a slot. -/
def Call.effect (inp : Inputs) : Call → ThreadLocals × ThreadStats → ThreadLocals × ThreadStats
  | .hook h, p => h.effect inp p
  | .init, p | .cleanup, p => p

/-- The locals and the slot after the calls of a thread, the first of which obtained slot `k`, and
before its cleanup. -/
def outcome (k : ℕ) : List (Call × Inputs) → ThreadLocals × ThreadStats
  | [] => (.new, .new)
  | (call, inp) :: calls =>
    calls.foldl (fun p e ↦ e.1.effect e.2 p)
      (call.effect inp (ThreadLocals.new.enter k inp.initTsc, .started inp))

theorem outcome_append {k : ℕ} {calls : List (Call × Inputs)} (hcalls : calls ≠ [])
    (call : Call × Inputs) :
    outcome k (calls ++ [call]) = call.1.effect call.2 (outcome k calls) := by
  cases calls with
  | nil => exact absurd rfl hcalls
  | cons first calls => simp only [outcome, List.cons_append, List.foldl_append, List.foldl_cons,
      List.foldl_nil]

/-! ## What a thread is in between calls -/

section Threads

variable {τ : Type} {t : τ} {life : Life} {s s' : Shared τ}

/-- The thread is between calls. -/
inductive Settled (t : τ) : Life → Shared τ → Prop where
  /-- It has no slot. -/
  | slotless {s : Shared τ} (hfree : Slotless t s) : Settled t .new s
  /-- It holds a slot, in which it finds the outcome of its calls. -/
  | holding {s : Shared τ} {k : ℕ} {l : ThreadLocals} {st : ThreadStats}
      {calls : List (Call × Inputs)} (hlive : ∀ e ∈ calls, e.1 ≠ .cleanup) (hcalls : calls ≠ [])
      (hout : outcome k calls = (l, st)) (hslot : l.threadSlot = some k) (hpos : 0 < l.stackDepth)
      (hactive : st.state = .active) (hh : Holding t k st s) : Settled t ⟨l, false, calls⟩ s
  /-- It has given up its slot, and left there the outcome of its calls. -/
  | retired {s : Shared τ} {k : ℕ} {l : ThreadLocals} {st : ThreadStats} {inp : Inputs}
      {calls : List (Call × Inputs)} (hlive : ∀ e ∈ calls, e.1 ≠ .cleanup) (hcalls : calls ≠ [])
      (hout : outcome k calls = (l, st)) (hslot : l.threadSlot = some k) (hpos : 0 < l.stackDepth)
      (hleft : Left t k (st.finish (l.top hpos) inp.tsc) s) :
      Settled t ⟨l, true, calls ++ [(.cleanup, inp)]⟩ s

theorem Settled.rely (h : Settled t life s) (hr : Rely t s s') : Settled t life s' := by
  cases h with
  | slotless hfree => exact .slotless (hfree.rely hr)
  | holding hlive hcalls hout hslot hpos hactive hh =>
    exact .holding hlive hcalls hout hslot hpos hactive (hh.rely hr)
  | retired hlive hcalls hout hslot hpos hleft =>
    exact .retired hlive hcalls hout hslot hpos (hleft.rely hr)

theorem settled_new : Settled t .new (.new : Shared τ) :=
  .slotless ⟨rfl, fun _ ↦ List.not_mem_nil, Finset.notMem_empty t⟩

end Threads

/-! ## Every call may run -/

section Calls

variable {τ : Type} [DecidableEq τ] [Fintype τ] {t : τ} {k : ℕ} {l : ThreadLocals}
  {st : ThreadStats} {life : Life} {s : Shared τ} {inp : Inputs}

/-- What a hook leaves of a thread that had no slot: the same, or the effect of the hook on a slot
it has just been given. -/
def Tried (t : τ) (inp : Inputs) (h : Hook) (l : ThreadLocals) (s : Shared τ) : Prop :=
  (l = .new ∧ Slotless t s) ∨
    ∃ k, l = (h.effect inp (ThreadLocals.new.enter k inp.initTsc, .started inp)).1 ∧
      Holding t k (h.effect inp (ThreadLocals.new.enter k inp.initTsc, .started inp)).2 s

theorem wp_hook_entered (h : Hook) (hh : Holding t k (.started inp) s) :
    contract.wp t ((h.code t inp).run (ThreadLocals.new.enter k inp.initTsc))
      (fun r s ↦ Tried t inp h r.2 s) s :=
  Contract.wp_mono (fun _ _ _ hr ↦ .inr ⟨k, hr⟩) (wp_hook inp h hh rfl Nat.one_pos)

/-- A hook of a thread without a slot first tries to get one; with one, it goes on as the hook of a
thread that had it before. -/
theorem wp_hook_slotless (h : Hook) (hfree : Slotless t s) :
    contract.wp t ((h.code t inp).run .new) (fun r s ↦ Tried t inp h r.2 s) s := by
  cases h with
  | startMeasurement =>
    simp only [Hook.code, cpuCycleStartMeasurement, ThreadM.run_bind,
      slotOrInitialize_run_none (l := .new) rfl, bind_assoc]
    refine Contract.wp_seq (wp_initializeThread hfree rfl) fun r s₁ _ h₁ ↦ ?_
    rcases r with ⟨_ | k, l'⟩
    · obtain ⟨rfl, hfree'⟩ := h₁
      exact Contract.wp_done fun s₂ hr₂ _ ↦ .inl ⟨rfl, hfree'.rely hr₂⟩
    · obtain ⟨rfl, hh⟩ := h₁
      exact wp_hook_entered .startMeasurement hh
  | callStart =>
    simp only [Hook.code, externalCallStart, ThreadM.run_bind,
      slotOrInitialize_run_none (l := .new) rfl, bind_assoc]
    refine Contract.wp_seq (wp_initializeThread hfree rfl) fun r s₁ _ h₁ ↦ ?_
    rcases r with ⟨_ | k, l'⟩
    · obtain ⟨rfl, hfree'⟩ := h₁
      exact Contract.wp_done fun s₂ hr₂ _ ↦ .inl ⟨rfl, hfree'.rely hr₂⟩
    · obtain ⟨rfl, hh⟩ := h₁
      exact wp_hook_entered .callStart hh
  | endMeasurement =>
    simp only [Hook.code, cpuCycleEndMeasurement, transitionState, ThreadM.run_bind,
      ThreadM.run_get, slotOrInitialize_run_none (l := .new) rfl, Program.done_bind, bind_assoc]
    refine Contract.wp_seq (wp_initializeThread hfree rfl) fun r s₁ _ h₁ ↦ ?_
    rcases r with ⟨_ | k, l'⟩
    · obtain ⟨rfl, hfree'⟩ := h₁
      exact Contract.wp_done fun s₂ hr₂ _ ↦ .inl ⟨rfl, hfree'.rely hr₂⟩
    · -- the new state was computed before there was a context, but the answer is the same
      obtain ⟨rfl, hh⟩ := h₁
      exact wp_hook_entered .endMeasurement hh
  | callEnd =>
    simp only [Hook.code, externalCallEnd, popContext, ThreadM.run_bind, ThreadM.run_get,
      Program.done_bind, ThreadLocals.new, ThreadM.run_pure]
    exact Contract.wp_done fun s₁ hr₁ _ ↦ .inl ⟨rfl, hfree.rely hr₁⟩

/-- A call by a thread without a slot. -/
theorem wp_call_slotless (call : Call × Inputs) (hfree : Slotless t s) :
    contract.wp t (system.code t call .new) (Settled t) s := by
  obtain ⟨call, inp⟩ := call
  have hnone : ∀ s', Slotless t s' → Settled t (Life.new.next (call, inp) .new) s' := by
    intro s' h
    rw [Life.next_of_none rfl _ rfl]
    exact .slotless h
  change contract.wp t ((call.code t inp).run .new >>= _) _ s
  cases call with
  | init =>
    simp only [Call.code, ThreadM.run_bind, ThreadM.run_pure, bind_assoc, Program.done_bind]
    refine Contract.wp_seq (wp_initializeThread hfree rfl) fun r s₁ _ h₁ ↦ ?_
    rcases r with ⟨_ | k, l'⟩
    · obtain ⟨rfl, hfree'⟩ := h₁
      exact Contract.wp_done fun s₂ hr₂ _ ↦ hnone s₂ (hfree'.rely hr₂)
    · obtain ⟨rfl, hh⟩ := h₁
      refine Contract.wp_done fun s₂ hr₂ _ ↦ ?_
      rw [Life.next_of_some rfl _ (l := ThreadLocals.new.enter k inp.initTsc) rfl]
      exact .holding (by simp [Life.new]) (by simp) rfl rfl Nat.one_pos rfl (hh.rely hr₂)
  | hook h =>
    refine Contract.wp_seq (wp_hook_slotless h hfree) fun r s₁ _ h₁ ↦ ?_
    obtain ⟨⟨⟩, l⟩ := r
    rcases h₁ with ⟨rfl, hfree'⟩ | ⟨k, rfl, hh⟩
    · exact Contract.wp_done fun s₂ hr₂ _ ↦ hnone s₂ (hfree'.rely hr₂)
    · refine Contract.wp_done fun s₂ hr₂ _ ↦ ?_
      rw [Life.next_of_some rfl _ (h.effect_threadSlot.trans rfl)]
      exact .holding (by simp [Life.new]) (by simp) rfl (h.effect_threadSlot.trans rfl)
        (h.effect_depth_pos Nat.one_pos) h.effect_state (hh.rely hr₂)
  | cleanup =>
    rw [Call.code, threadCleanup_run_none rfl]
    exact Contract.wp_done fun s₁ hr₁ _ ↦ hnone s₁ (hfree.rely hr₁)

/-- A call by a thread that holds a slot. -/
theorem wp_call_holding {calls : List (Call × Inputs)} (call : Call × Inputs) (hi : Inv s)
    (hlive : ∀ e ∈ calls, e.1 ≠ .cleanup) (hcalls : calls ≠ [])
    (hout : outcome k calls = (l, st)) (hslot : l.threadSlot = some k) (hpos : 0 < l.stackDepth)
    (hactive : st.state = .active) (hh : Holding t k st s) :
    contract.wp t (system.code t call ⟨l, false, calls⟩) (Settled t) s := by
  obtain ⟨call, inp⟩ := call
  have hlive' : call ≠ .cleanup → ∀ e ∈ calls ++ [(call, inp)], e.1 ≠ .cleanup := by
    intro hne e he
    rcases List.mem_append.mp he with h | h
    · exact hlive e h
    · rwa [List.mem_singleton.mp h]
  have hcalls' : calls ++ [(call, inp)] ≠ [] := by simp
  have hout' : outcome k (calls ++ [(call, inp)]) = call.effect inp (l, st) := by
    rw [outcome_append hcalls, hout]
  change contract.wp t ((call.code t inp).run l >>= _) _ s
  cases call with
  | init =>
    simp only [Call.code, ThreadM.run_bind, initializeThread_run_some hslot, Program.done_bind,
      ThreadM.run_pure]
    rw [Life.next_of_some rfl _ hslot]
    exact Contract.wp_done fun s₁ hr₁ _ ↦
      .holding (hlive' (by simp)) hcalls' hout' hslot hpos hactive (hh.rely hr₁)
  | hook h =>
    refine Contract.wp_seq (wp_hook inp h hh hslot hpos) fun r s₁ _ h₁ ↦ ?_
    obtain ⟨⟨⟩, l'⟩ := r
    obtain ⟨rfl, hh'⟩ := h₁
    have hslot' : (h.effect inp (l, st)).1.threadSlot = some k := h.effect_threadSlot.trans hslot
    refine Contract.wp_done fun s₂ hr₂ _ ↦ ?_
    rw [Life.next_of_some rfl _ hslot']
    exact .holding (hlive' (by simp)) hcalls' hout' hslot' (h.effect_depth_pos hpos)
      (h.effect_state.trans hactive) (hh'.rely hr₂)
  | cleanup =>
    refine Contract.wp_seq (wp_threadCleanup hi hh hslot hpos) fun r s₁ _ h₁ ↦ ?_
    obtain ⟨⟨⟩, l'⟩ := r
    obtain ⟨rfl, hleft⟩ := h₁
    refine Contract.wp_done fun s₂ hr₂ _ ↦ ?_
    rw [Life.next_of_some rfl _ hslot]
    exact .retired hlive hcalls hout hslot hpos (hleft.rely hr₂)

/-- Every call a thread may make runs, and leaves the thread settled. -/
theorem wp_call (call : Call × Inputs) (hi : Inv s) (hsettled : Settled t life s)
    (hallowed : system.allowed t call life s = true) :
    contract.wp t (system.code t call life) (Settled t) s := by
  cases hsettled with
  | slotless hfree => exact wp_call_slotless call hfree
  | holding hlive hcalls hout hslot hpos hactive hh =>
    exact wp_call_holding call hi hlive hcalls hout hslot hpos hactive hh
  | retired hlive hcalls hout hslot hpos hleft =>
    obtain ⟨_ | h | _, inp⟩ := call
    case init =>
      -- the slot is still on record, so the call returns it and touches nothing
      simp only [system, Call.code, ThreadM.run_bind, initializeThread_run_some hslot,
        Program.done_bind, ThreadM.run_pure]
      rw [Life.next_of_cleanedUp rfl]
      exact Contract.wp_done fun s₁ hr₁ _ ↦
        .retired hlive hcalls hout hslot hpos (hleft.rely hr₁)
    all_goals simp [system, Call.permitted] at hallowed

end Calls

/-! ## What holds in every run -/

section Runs

variable {τ : Type} [DecidableEq τ] [Fintype τ]

/-- The invariant holds in every run. -/
theorem inv_run (ms : List (Move τ (Call × Inputs))) : Inv (system.run start ms).shared := by
  refine (Contract.run_sound (C := contract) system Settled ?_ start Inv.new ?_ ms).1
  · exact fun t call life s hi hsettled hallowed ↦ wp_call call hi hsettled hallowed
  · exact fun t ↦ Contract.wp_done fun s hr _ ↦ settled_new.rely hr

/-- Every thread between calls is settled. -/
theorem settled_run (ms : List (Move τ (Call × Inputs))) {t : τ} {life : Life}
    (hidle : (system.run start ms).Idle t life) :
    Settled t life (system.run start ms).shared := by
  refine Contract.run_idle (C := contract) system Settled ?_ start Inv.new ?_ ms hidle
  · exact fun t call life s hi hsettled hallowed ↦ wp_call call hi hsettled hallowed
  · exact fun t ↦ Contract.wp_done fun s hr _ ↦ settled_new.rely hr

omit [Fintype τ] in
/-- The calls of a thread only become more. -/
theorem calls_prefix {ms₁ ms : List (Move τ (Call × Inputs))} (hms : ms₁ <+: ms) {t : τ}
    {life₁ life : Life} (hidle₁ : (system.run start ms₁).Idle t life₁)
    (hidle : (system.run start ms).Idle t life) : life₁.calls <+: life.calls := by
  obtain ⟨ms₂, rfl⟩ := hms
  have hcall : ∀ call life, life₁.calls <+: Life.calls life →
      ((system (τ := τ)).code t call life).Returns fun life ↦ life₁.calls <+: life.calls := by
    intro call life h
    refine Program.returns_bind fun r ↦ ?_
    change life₁.calls <+: (life.next call r.2).calls
    rw [Life.next]
    split
    · exact h.trans (List.prefix_append _ _)
    · exact h
  have hreturns := system.run_returns hcall (c := system.run start ms₁)
    (by rw [hidle₁]; exact List.prefix_rfl) ms₂
  rw [← Service.run_append, hidle] at hreturns
  exact hreturns

omit [Fintype τ] in
/-- A thread keeps its slot for life. -/
theorem slot_persists {ms₁ ms : List (Move τ (Call × Inputs))} (hms : ms₁ <+: ms) {t : τ}
    {life₁ life : Life} {k : ℕ} (hidle₁ : (system.run start ms₁).Idle t life₁)
    (hidle : (system.run start ms).Idle t life) (hslot : life₁.locals.threadSlot = some k)
    (hpos : 0 < life₁.locals.stackDepth) : life.locals.threadSlot = some k := by
  obtain ⟨ms₂, rfl⟩ := hms
  have hcall : ∀ call life, life.locals.threadSlot = some k ∧ 0 < life.locals.stackDepth →
      ((system (τ := τ)).code t call life).Returns fun life ↦
        life.locals.threadSlot = some k ∧ 0 < life.locals.stackDepth := by
    rintro ⟨call, inp⟩ life ⟨hslot, hpos⟩
    have hlocals : ((call.code t inp).run life.locals).Returns fun r ↦
        r.2.threadSlot = some k ∧ 0 < r.2.stackDepth := by
      cases call with
      | init =>
        simp only [Call.code, ThreadM.run_bind, initializeThread_run_some hslot, Program.done_bind,
          ThreadM.run_pure]
        exact ⟨hslot, hpos⟩
      | hook h =>
        refine (hook_returns h hslot hpos).mono ?_
        rintro _ rfl
        exact ⟨h.effect_threadSlot.trans hslot, h.effect_depth_pos hpos⟩
      | cleanup => exact (threadCleanup_returns hslot hpos).mono fun r hr ↦ hr ▸ ⟨hslot, hpos⟩
    exact hlocals.bind fun r hr ↦ hr
  have hreturns := system.run_returns hcall (c := system.run start ms₁)
    (by rw [hidle₁]; exact ⟨hslot, hpos⟩) ms₂
  rw [← Service.run_append, hidle] at hreturns
  exact hreturns.1

omit [Fintype τ] in
/-- Between any two of its calls a thread was idle. -/
theorem exists_idle_of_prefix (ms : List (Move τ (Call × Inputs))) {t : τ} {life : Life}
    (hidle : (system.run start ms).Idle t life) {pre : List (Call × Inputs)}
    (hpre : pre <+: life.calls) : ∃ ms₁ life₁, ms₁ <+: ms ∧
      (system.run start ms₁).Idle t life₁ ∧ life₁.calls = pre := by
  have hcall : ∀ call life, ((system (τ := τ)).code t call life).Returns fun life' ↦
      life'.calls = life.calls ∨ ∃ e, life'.calls = life.calls ++ [e] := by
    intro call life
    refine Program.returns_bind fun r ↦ ?_
    change (life.next call r.2).calls = life.calls ∨ ∃ e, (life.next call r.2).calls = _
    rw [Life.next]
    split
    · exact .inr ⟨call, rfl⟩
    · exact .inl rfl
  -- back from call to call, as long as more calls have been made than wanted
  induction hn : ms.length using Nat.strong_induction_on generalizing ms life with
  | _ n ih =>
    by_cases heq : pre = life.calls
    · exact ⟨ms, life, List.prefix_rfl, hidle, heq.symm⟩
    · obtain ⟨ms₀, life₀, hms₀, hshort, hidle₀, hreturns⟩ :=
        system.run_since_idle (fun _ ↦ .inl rfl) hcall (c := start) (t := t) (l := .new) rfl ms
      have hne : ms ≠ [] := by
        rintro rfl
        obtain rfl : life = .new := Program.done.inj hidle.symm
        exact heq (List.prefix_nil.mp hpre)
      rw [hidle] at hreturns
      have hpre₀ : pre <+: life₀.calls := by
        rcases hreturns with hcalls | ⟨e, hcalls⟩
        · rwa [hcalls] at hpre
        · rw [hcalls] at hpre heq
          exact (List.prefix_concat_iff.mp hpre).resolve_left heq
      obtain ⟨ms₁, life₁, hms₁, hrest⟩ :=
        ih ms₀.length (hn ▸ hshort hne) ms₀ hidle₀ hpre₀ rfl
      exact ⟨ms₁, life₁, hms₁.trans hms₀, hrest⟩

/-- A thread with a slot has made calls. -/
theorem calls_ne_nil {ms : List (Move τ (Call × Inputs))} {t : τ} {life : Life} {k : ℕ}
    (hidle : (system.run start ms).Idle t life) (hslot : life.locals.threadSlot = some k) :
    life.calls ≠ [] := by
  have hsettled := settled_run ms hidle
  cases hsettled with
  | slotless hfree => exact absurd hslot (by simp [Life.new, ThreadLocals.new])
  | holding _ hcalls => exact hcalls
  | retired => exact List.append_ne_nil_of_right_ne_nil _ (List.cons_ne_nil _ _)

/-- Before its cleanup, a thread that has made calls finds their outcome in its slot, which it keeps
for life. -/
theorem slot_of_calls {ms₁ ms : List (Move τ (Call × Inputs))} (hms : ms₁ <+: ms) {t : τ}
    {life₁ life : Life} {k : ℕ} (hidle₁ : (system.run start ms₁).Idle t life₁)
    (hidle : (system.run start ms).Idle t life) (hslot : life.locals.threadSlot = some k)
    (hcalls : life₁.calls ≠ []) (hlive : ∀ e ∈ life₁.calls, e.1 ≠ .cleanup) :
    (system.run start ms₁).shared.threads k = (outcome k life₁.calls).2 := by
  have hsettled := settled_run ms₁ hidle₁
  generalize (system.run start ms₁).shared = s at hsettled
  cases hsettled with
  | slotless => exact absurd rfl hcalls
  | holding _ _ hout hslot₁ hpos _ hh =>
    have hsame := slot_persists hms hidle₁ hidle hslot₁ hpos
    obtain rfl := Option.some.inj (hslot.symm.trans hsame)
    rw [hh.stats, hout]
  | retired => exact absurd rfl (hlive _ (List.mem_append_right _ List.mem_cons_self))

/-- **Slots are exclusive.** In every state of every run: no two threads hold the same slot; no
thread has been given two slots; every slot ever handed out is in the part of the array the final
scan covers; and every slot that became active had all its counters zero at that step. -/
theorem slots_exclusive (ms : List (Move τ (Call × Inputs))) :
    let s := (system.run start ms).shared
    (∀ t u k, s.history.holds t = some k → s.history.holds u = some k → t = u) ∧
    (s.history.granted.map Prod.fst).Nodup ∧
    (∀ t k, (t, k) ∈ s.history.granted → k < min s.nextSlot maxThreads) ∧
    (∀ e ∈ s.history.activated, ∀ c, e.2 c = 0) := by
  intro s
  have hi : Inv s := inv_run ms
  exact ⟨hi.holds_inj, hi.granted_nodup, hi.granted_lt, hi.activated_zero⟩

end Runs

end UnsafePerf.CpuCycle
